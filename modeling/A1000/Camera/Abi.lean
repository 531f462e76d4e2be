import A1000.Camera.Loader
import A1000.Camera.Symtab

/-!
# What the relocations mean

For a library that is well formed, each relocation stores what its type says, with the symbol that
is taken for the name of its own symbol. The ABI asks for the own symbol itself when it is defined,
for the symbol of the process when it is not, and for 0 when it is a weak reference that nothing
resolves. Both are the same unless the library has another symbol of that name before, its own one
has the value 0, or the reference is weak.

## Main definitions

* `Camera.WellFormed` — the image of a library that is well formed
* `Camera.Rel.Asks` — the word that the ABI asks for
* `Camera.AbiMeaning` — what is promised
* `Camera.Agrees`, `Camera.WeakSupplied` — when the symbol that is taken is the own one

## Main results

* `Camera.relocate_spec`, `Camera.run_spec` — one relocation, and all of them
* `Camera.abiMeaning_iff` — when the relocations have the meaning of the ABI
-/

namespace A1000

namespace Camera

open Bytes Fallible Window

/-! ### The image -/

/-- What the loader makes of a file before the relocations: the segments, what the table of
`PT_DYNAMIC` says, and the library. -/
def image (p : Process) (file : Bytes) : Call (List Phdr × Dynamic × Loaded) := do
  let eh ← readEhdr file
  let ph ← readPhdrs file eh
  let (lo_v, hi_v) := extent ph
  if lo_v = 0xffffffff then throw .failed
  let span := PAGE_UP hi_v - PAGE_DOWN lo_v
  match p.mmap span with
  | none => throw .failed
  | some start =>
    let base := start - PAGE_DOWN lo_v
    let mem ← ph.foldlM (readSegment file base) ⟨start, span, fun _ => 0, fun _ => true⟩
    let (d, lo) ← Loader.dynamicInfo base ph mem
    return (ph, d, lo)

/-- Where the relocations are: first those of `DT_REL`, then those of `DT_JMPREL`. -/
def relAddrs (d : Dynamic) : List UInt32 :=
  Loader.relEntries d.rel d.relsz ++ Loader.relEntries d.jmprel d.jmprelsz

/-- Both passes. -/
def relocateAll (p : Process) (d : Dynamic) (lo : Loaded) : Call Loaded :=
  (relAddrs d).foldlM (relocate p) lo

/-- The loader, from the table of `PT_DYNAMIC` on. -/
theorem link_eq_relocateAll (p : Process) (base : UInt32) (ph : List Phdr) (mem : Window) :
    link p base ph mem = (do
      let r ← Loader.dynamicInfo base ph mem
      let lo ← relocateAll p r.1 r.2
      initializers p r.1.init_array r.1.init_arraysz (ph.foldl (protect p) lo)) := by
  rw [Loader.link_eq]
  cases Loader.dynamicInfo base ph mem with
  | error e => rfl
  | ok r =>
    rw [ok_bind, ok_bind, relocateAll, relAddrs, List.foldlM_append, ← Loader.relocatePass_eq]
    cases relocatePass p r.1.rel r.1.relsz r.2 with
    | error e => rfl
    | ok lo => rw [ok_bind, ok_bind, ← Loader.relocatePass_eq]

/-- The loader, from the image on. -/
theorem load_eq (p : Process) (file : Bytes) :
    load p file = (do
      let (ph, d, lo) ← image p file
      let lo ← relocateAll p d lo
      initializers p d.init_array d.init_arraysz (ph.foldl (protect p) lo)) := by
  rw [load, image]
  cases readEhdr file with
  | error e => rfl
  | ok eh =>
    rw [ok_bind, ok_bind]
    cases readPhdrs file eh with
    | error e => rfl
    | ok ph =>
      rw [ok_bind, ok_bind]
      rcases extent ph with ⟨lo_v, hi_v⟩
      by_cases hlo : lo_v = 0xffffffff
      · simp only [if_pos hlo]
        rfl
      · simp only [if_neg hlo]
        cases p.mmap (PAGE_UP hi_v - PAGE_DOWN lo_v) with
        | none => rfl
        | some start =>
          simp only [link_eq_relocateAll]
          generalize start - PAGE_DOWN lo_v = base
          cases ph.foldlM (readSegment file base)
            ⟨start, PAGE_UP hi_v - PAGE_DOWN lo_v, fun _ => 0, fun _ => true⟩ with
          | error e => rfl
          | ok mem =>
            simp only [ok_bind]
            cases Loader.dynamicInfo base ph mem with
            | error e => rfl
            | ok r => rfl

/-! ### Relocations -/

/-- A relocation, with the address of its entry. -/
structure Rel where
  addr : UInt32
  r_offset : UInt32
  r_info : UInt32
  deriving DecidableEq, Repr

namespace Rel

/-- `ELF32_R_TYPE`. -/
def type (r : Rel) : UInt32 := r.r_info &&& 0xff

/-- `ELF32_R_SYM`. -/
def sym (r : Rel) : ℕ := (r.r_info >>> 8).toNat

def slot (base : UInt32) (r : Rel) : UInt32 := base + r.r_offset

/-- The relocation has a symbol. -/
def Symbolic (r : Rel) : Prop :=
  r.type = R_ARM_GLOB_DAT ∨ r.type = R_ARM_JUMP_SLOT ∨ r.type = R_ARM_ABS32

instance (r : Rel) : Decidable r.Symbolic := inferInstanceAs (Decidable (_ ∨ _ ∨ _))

end Rel

/-- The words that are relocated. -/
def Slots (base : UInt32) (rs : List Rel) (x : UInt32) : Prop := ∃ r ∈ rs, InWord (r.slot base) x

instance (base : UInt32) (rs : List Rel) (x : UInt32) : Decidable (Slots base rs x) :=
  inferInstanceAs (Decidable (∃ r ∈ rs, _))

/-- **The image of a well-formed library**: the table of symbols and the relocations can be read,
the relocations are of the four types and have their symbols in the table, and the words that are
relocated are in the mapping, have no byte in common, and are apart from the tables. -/
structure WellFormed (lo : Loaded) (tab : List Symbol) (rs : List Rel) : Prop where
  symbols : Symbols lo tab
  entries : ∀ r ∈ rs, lo.mem.read32 r.addr = .ok r.r_offset ∧
    lo.mem.read32 (r.addr + 4) = .ok r.r_info
  types : ∀ r ∈ rs, r.type = R_ARM_RELATIVE ∨ r.Symbolic
  sym_lt : ∀ r ∈ rs, r.Symbolic → r.sym < tab.length
  inside : ∀ r ∈ rs, (r.slot lo.base - lo.mem.start).toNat + 4 ≤ lo.mem.span.toNat
  readable : ∀ r ∈ rs, (lo.mem.read32 (r.slot lo.base)).isOk = true
  table_apart : TableApart lo tab (Slots lo.base rs)
  entries_apart : ∀ r ∈ rs, ∀ k < 8, ¬ Slots lo.base rs (r.addr + .ofNat k)
  slots_apart : rs.Pairwise fun r r' => WordsApart (r.slot lo.base) (r'.slot lo.base)

theorem wellFormed_iff {lo : Loaded} {tab : List Symbol} {rs : List Rel} :
    WellFormed lo tab rs ↔ Symbols lo tab ∧
      (∀ r ∈ rs, lo.mem.read32 r.addr = .ok r.r_offset ∧
        lo.mem.read32 (r.addr + 4) = .ok r.r_info) ∧
      (∀ r ∈ rs, r.type = R_ARM_RELATIVE ∨ r.Symbolic) ∧
      (∀ r ∈ rs, r.Symbolic → r.sym < tab.length) ∧
      (∀ r ∈ rs, (r.slot lo.base - lo.mem.start).toNat + 4 ≤ lo.mem.span.toNat) ∧
      (∀ r ∈ rs, (lo.mem.read32 (r.slot lo.base)).isOk = true) ∧
      TableApart lo tab (Slots lo.base rs) ∧
      (∀ r ∈ rs, ∀ k < 8, ¬ Slots lo.base rs (r.addr + .ofNat k)) ∧
      rs.Pairwise fun r r' => WordsApart (r.slot lo.base) (r'.slot lo.base) :=
  ⟨fun ⟨h₁, h₂, h₃, h₄, h₅, h₆, h₇, h₈, h₉⟩ => ⟨h₁, h₂, h₃, h₄, h₅, h₆, h₇, h₈, h₉⟩,
    fun ⟨h₁, h₂, h₃, h₄, h₅, h₆, h₇, h₈, h₉⟩ => ⟨h₁, h₂, h₃, h₄, h₅, h₆, h₇, h₈, h₉⟩⟩

instance (lo : Loaded) (tab : List Symbol) (rs : List Rel) : Decidable (WellFormed lo tab rs) :=
  decidable_of_iff _ wellFormed_iff.symm

/-! ### What the ABI asks for -/

/-- `S`, the value of a symbol: nothing is said of a reference that is not weak and that nothing
resolves. -/
def Symbol.meaning (p : Process) (base : UInt32) (e : Symbol) : Option UInt32 :=
  if e.Defined then some (base + e.st_value)
  else if p.dlsym e.name ≠ 0 then some (p.dlsym e.name)
  else if e.Weak then some 0
  else none

/-- A weak reference that nothing resolves. -/
def Symbol.UnresolvedWeak (p : Process) (e : Symbol) : Prop :=
  ¬ e.Defined ∧ e.Weak ∧ p.dlsym e.name = 0

/-- **The word that the ABI asks for**: `B + A`, `S`, and `S + A`. -/
inductive Rel.Asks (p : Process) (lo : Loaded) (tab : List Symbol) (r : Rel) : UInt32 → Prop
  | relative {A : UInt32} : r.type = R_ARM_RELATIVE → lo.mem.read32 (r.slot lo.base) = .ok A →
      r.Asks p lo tab (lo.base + A)
  | symbol {e : Symbol} {S : UInt32} : r.type = R_ARM_GLOB_DAT ∨ r.type = R_ARM_JUMP_SLOT →
      tab[r.sym]? = some e → e.meaning p lo.base = some S → r.Asks p lo tab S
  | absolute {e : Symbol} {A S : UInt32} : r.type = R_ARM_ABS32 →
      lo.mem.read32 (r.slot lo.base) = .ok A → tab[r.sym]? = some e →
      e.meaning p lo.base = some S → r.Asks p lo tab (S + A)

/-- The loader stops at a weak reference that nothing resolves. -/
def StopsAtWeak (p : Process) (lo : Loaded) (tab : List Symbol) (rs : List Rel) : Prop :=
  ∃ before r after lo' e, rs = before ++ r :: after ∧
    before.foldlM (fun lo r => relocate p lo r.addr) lo = .ok lo' ∧
      r.Symbolic ∧ tab[r.sym]? = some e ∧ e.UnresolvedWeak p ∧
        relocate p lo' r.addr = .error .failed

/-- `elfload_open` does not return null. -/
def Succeeds (p : Process) (file : Bytes) (want : List Name) : Prop :=
  ∃ lo out, elfloadOpen p (some file) want = .ok (lo, out) ∧ lo.base ≠ 0

/-- **The relocations have the meaning of the ABI**: each word is what the ABI asks for when the
relocations have been applied, if `elfload_open` succeeds; and it does not fail because of a weak
reference that nothing resolves. -/
structure AbiMeaning (p : Process) (file : Bytes) (want : List Name) : Prop where
  words : Succeeds p file want → ∀ ph d lo tab rs, image p file = .ok (ph, d, lo) →
    rs.map Rel.addr = relAddrs d → WellFormed lo tab rs →
      ∀ lo', relocateAll p d lo = .ok lo' → ∀ r ∈ rs, ∀ v, r.Asks p lo tab v →
        lo'.mem.read32 (r.slot lo.base) = .ok v
  weak : ∀ ph d lo tab rs, image p file = .ok (ph, d, lo) →
    rs.map Rel.addr = relAddrs d → WellFormed lo tab rs → ¬ StopsAtWeak p lo tab rs

/-! ### One relocation -/

/-- What is given for the symbol of a relocation; null when there is none. -/
def Rel.val (p : Process) (base : UInt32) (tab : List Symbol) (r : Rel) : UInt32 :=
  match tab[r.sym]? with
  | some e => given p base tab e.name
  | none => 0

/-- The relocation is carried out: it needs no symbol, or one is found. -/
def Rel.Supplied (p : Process) (base : UInt32) (tab : List Symbol) (r : Rel) : Prop :=
  r.Symbolic → r.val p base tab ≠ 0

theorem val_eq {p : Process} {base : UInt32} {tab : List Symbol} {r : Rel} {e : Symbol}
    (he : tab[r.sym]? = some e) : r.val p base tab = given p base tab e.name := by
  rw [Rel.val, he]

theorem supplied_iff {p : Process} {base : UInt32} {tab : List Symbol} {r : Rel} {e : Symbol}
    (hsym : r.Symbolic) (he : tab[r.sym]? = some e) :
    r.Supplied p base tab ↔ given p base tab e.name ≠ 0 := by
  rw [Rel.Supplied, val_eq he]
  exact ⟨fun h => h hsym, fun h _ => h⟩

/-- What it stores over the word `A`. -/
def Rel.stores (p : Process) (base : UInt32) (tab : List Symbol) (r : Rel) (A : UInt32) : UInt32 :=
  if r.type = R_ARM_RELATIVE then A + base
  else if r.type = R_ARM_ABS32 then A + r.val p base tab
  else r.val p base tab

theorem WellFormed.exists_word {lo : Loaded} {tab : List Symbol} {rs : List Rel}
    (h : WellFormed lo tab rs) {r : Rel} (hr : r ∈ rs) :
    ∃ A, lo.mem.read32 (r.slot lo.base) = .ok A := by
  have hok := h.readable r hr
  cases hA : lo.mem.read32 (r.slot lo.base) with
  | ok A => exact ⟨A, rfl⟩
  | error e =>
    rw [hA] at hok
    cases hok

/-- The symbol of a relocation, as the loader looks it up. -/
theorem WellFormed.resolve_eq {p : Process} {lo : Loaded} {tab : List Symbol} {rs : List Rel}
    (h : WellFormed lo tab rs) {r : Rel} (hr : r ∈ rs) (hsym : r.Symbolic) :
    ∃ n s, lo.st_name r.sym = .ok n ∧ lo.mem.cstr (lo.strtab + n) = .ok s ∧
      resolve p lo s = .ok (r.val p lo.base tab) := by
  obtain ⟨e, he⟩ : ∃ e, tab[r.sym]? = some e :=
    ⟨_, List.getElem?_eq_getElem (h.sym_lt r hr hsym)⟩
  have hin := h.symbols.2 r.sym e he
  refine ⟨e.st_name, e.name, hin.st_name, hin.name, ?_⟩
  rw [Rel.val, he, Camera.resolve_eq h.symbols (h.symbols.zero_notMem (List.mem_of_getElem? he))]

/-- A word is stored in its slot. -/
theorem WellFormed.store {lo : Loaded} {tab : List Symbol} {rs : List Rel}
    (h : WellFormed lo tab rs) {r : Rel} (hr : r ∈ rs) (v : UInt32) :
    ∃ lo', (do
      let mem ← lo.mem.write32 (r.slot lo.base) v
      return { lo with mem := mem }) = Except.ok lo' ∧
        Loaded.SameBut (InWord (r.slot lo.base)) lo lo' ∧
          lo'.mem.read32 (r.slot lo.base) = .ok v := by
  obtain ⟨A, hA⟩ := h.exists_word hr
  obtain ⟨m', hm', hsame, hread⟩ := read32_write32 (v := v) (h.inside r hr) hA
  exact ⟨{ lo with mem := m' }, by rw [hm']; rfl, ⟨rfl, rfl, rfl, rfl, hsame⟩, hread⟩

/-- The types of the relocations with a symbol. -/
theorem Rel.Symbolic.not_relative {r : Rel} (h : r.Symbolic) : r.type ≠ R_ARM_RELATIVE := by
  rintro hrel
  rw [Symbolic, hrel] at h
  revert h
  decide

/-- **One relocation**: it stores a word, if its symbol is found. -/
theorem relocate_spec {p : Process} {lo : Loaded} {tab : List Symbol} {rs : List Rel}
    (h : WellFormed lo tab rs) {r : Rel} (hr : r ∈ rs) {A : UInt32}
    (hA : lo.mem.read32 (r.slot lo.base) = .ok A) :
    (¬ r.Supplied p lo.base tab → relocate p lo r.addr = .error .failed) ∧
      (r.Supplied p lo.base tab → ∃ lo', relocate p lo r.addr = .ok lo' ∧
        Loaded.SameBut (InWord (r.slot lo.base)) lo lo' ∧
          lo'.mem.read32 (r.slot lo.base) = .ok (r.stores p lo.base tab A)) := by
  have hstore := h.store hr (r.stores p lo.base tab A)
  have hslot : lo.base + r.r_offset = r.slot lo.base := rfl
  rw [relocate, (h.entries r hr).1, ok_bind, (h.entries r hr).2, ok_bind]
  simp only [show r.r_info &&& 0xff = r.type from rfl,
    show (r.r_info >>> 8).toNat = r.sym from rfl, hslot]
  rcases h.types r hr with hrel | hsym
  · have hsupplied : r.Supplied p lo.base tab := fun hsym => absurd hrel hsym.not_relative
    refine ⟨fun hno => absurd hsupplied hno, fun _ => ?_⟩
    have hword : r.stores p lo.base tab A = A + lo.base := if_pos hrel
    rw [if_pos hrel, hA, ok_bind, hword]
    rwa [hword] at hstore
  · have hnot : r.type ≠ R_ARM_RELATIVE := hsym.not_relative
    obtain ⟨n, s, hn, hs, hval⟩ := h.resolve_eq (p := p) hr hsym
    rw [if_neg hnot, if_pos (by rcases hsym with h | h | h <;> simp [h]), hn, ok_bind, hs, ok_bind,
      hval, ok_bind]
    by_cases hzero : r.val p lo.base tab = 0
    · have hno : ¬ r.Supplied p lo.base tab := fun hsup => hsup hsym hzero
      exact ⟨fun _ => by rw [if_pos hzero]; rfl, fun hsup => absurd hsup hno⟩
    · refine ⟨fun hno => absurd (fun _ => hzero) hno, fun _ => ?_⟩
      rw [if_neg hzero]
      by_cases habs : r.type = R_ARM_ABS32
      · have hword : r.stores p lo.base tab A = A + r.val p lo.base tab := by
          rw [Rel.stores, if_neg hnot, if_pos habs]
        rw [hword] at hstore ⊢
        simp only [if_pos habs, hA, ok_bind]
        exact hstore
      · have hword : r.stores p lo.base tab A = r.val p lo.base tab := by
          rw [Rel.stores, if_neg hnot, if_neg habs]
        rw [hword] at hstore ⊢
        simp only [if_neg habs]
        exact hstore

/-! ### All relocations -/

/-- A slot is left alone by what is stored in the others. -/
theorem WellFormed.read_slot {lo : Loaded} {tab : List Symbol} {r r' : Rel} {rs : List Rel}
    {m m' : Window} (h : WellFormed lo tab (r :: rs)) (hr' : r' ∈ rs)
    (hsame : Window.SameBut (InWord (r.slot lo.base)) m m') :
    m'.read32 (r'.slot lo.base) = m.read32 (r'.slot lo.base) := by
  refine hsame.read32 fun k hk => ?_
  have hapart := (List.pairwise_cons.mp h.slots_apart).1 r' hr'
  exact hapart.symm.not_inWord (inWord_add _ hk)

/-- What is left to do after one relocation is well formed. -/
theorem WellFormed.tail {lo lo' : Loaded} {tab : List Symbol} {r : Rel} {rs : List Rel}
    (h : WellFormed lo tab (r :: rs)) (hsame : Loaded.SameBut (InWord (r.slot lo.base)) lo lo') :
    WellFormed lo' tab rs := by
  have hr : r ∈ r :: rs := List.mem_cons_self
  have hcons : ∀ r' ∈ rs, r' ∈ r :: rs := fun r' hr' => List.mem_cons_of_mem r hr'
  have hslots : ∀ x, Slots lo.base rs x → Slots lo.base (r :: rs) x := by
    rintro x ⟨r', hr', hx⟩
    exact ⟨r', hcons r' hr', hx⟩
  have hword : ∀ x, InWord (r.slot lo.base) x → Slots lo.base (r :: rs) x := fun x hx => ⟨r, hr, hx⟩
  refine ⟨?_, ?_, fun r' hr' => h.types r' (hcons r' hr'),
    fun r' hr' => h.sym_lt r' (hcons r' hr'), ?_, ?_, ?_, ?_, ?_⟩
  · exact h.symbols.frame hsame
      ⟨fun i hi k hk hx => h.table_apart.symbols i hi k hk (hword _ hx),
        fun e he k hk hx => h.table_apart.names e he k hk (hword _ hx)⟩
  · intro r' hr'
    have hapart : ∀ k < 8, ¬ InWord (r.slot lo.base) (r'.addr + .ofNat k) := fun k hk hx =>
      h.entries_apart r' (hcons r' hr') k hk (hword _ hx)
    have hoffset : lo'.mem.read32 r'.addr = lo.mem.read32 r'.addr :=
      hsame.mem.read32 fun k hk => hapart k (by omega)
    have hinfo : lo'.mem.read32 (r'.addr + 4) = lo.mem.read32 (r'.addr + 4) := by
      refine hsame.mem.read32 fun k hk => ?_
      have hfour : r'.addr + 4 + .ofNat k = r'.addr + .ofNat (4 + k) := add_ofNat_add r'.addr 4 k
      rw [hfour]
      exact hapart (4 + k) (by omega)
    rw [hoffset, hinfo]
    exact h.entries r' (hcons r' hr')
  · intro r' hr'
    rw [hsame.base, hsame.mem.start, hsame.mem.span]
    exact h.inside r' (hcons r' hr')
  · intro r' hr'
    rw [hsame.base, h.read_slot hr' hsame.mem]
    exact h.readable r' (hcons r' hr')
  · rw [hsame.base]
    refine ⟨fun i hi k hk hx => ?_, fun e he k hk hx => ?_⟩
    · rw [show lo'.symbol i = lo.symbol i by rw [Loaded.symbol, Loaded.symbol, hsame.symtab]] at hx
      exact h.table_apart.symbols i hi k hk (hslots _ hx)
    · rw [hsame.strtab] at hx
      exact h.table_apart.names e he k hk (hslots _ hx)
  · rw [hsame.base]
    exact fun r' hr' k hk hx => h.entries_apart r' (hcons r' hr') k hk (hslots _ hx)
  · rw [hsame.base]
    exact (List.pairwise_cons.mp h.slots_apart).2

/-- **The relocations, one after the other**: they come to an end when all symbols are found, and
each has stored its word, over what was there at first. -/
theorem run_spec {p : Process} {lo : Loaded} {tab : List Symbol} {before after : List Rel}
    (h : WellFormed lo tab (before ++ after)) :
    (¬ (∀ r ∈ before, r.Supplied p lo.base tab) →
        before.foldlM (fun lo r => relocate p lo r.addr) lo = .error .failed) ∧
      ((∀ r ∈ before, r.Supplied p lo.base tab) → ∃ lo',
        before.foldlM (fun lo r => relocate p lo r.addr) lo = .ok lo' ∧
          Loaded.SameBut (Slots lo.base before) lo lo' ∧ WellFormed lo' tab after ∧
            ∀ r ∈ before, ∀ A, lo.mem.read32 (r.slot lo.base) = .ok A →
              lo'.mem.read32 (r.slot lo.base) = .ok (r.stores p lo.base tab A)) := by
  induction before generalizing lo with
  | nil =>
    refine ⟨fun hno => absurd (by simp) hno, fun _ => ⟨lo, rfl, .refl _ lo, h, by simp⟩⟩
  | cons r before ih =>
    have hr : r ∈ r :: before ++ after := List.mem_cons_self
    obtain ⟨A, hA⟩ := h.exists_word hr
    obtain ⟨hfail, hstep⟩ := relocate_spec (p := p) h hr hA
    rw [List.forall_mem_cons, List.foldlM_cons]
    by_cases hsup : r.Supplied p lo.base tab
    · obtain ⟨lo₁, h₁, hsame, hword⟩ := hstep hsup
      have htail : WellFormed lo₁ tab (before ++ after) := h.tail hsame
      obtain ⟨ihfail, ihrun⟩ := ih htail
      rw [hsame.base] at ihfail ihrun
      rw [h₁, ok_bind]
      refine ⟨fun hno => ihfail fun hall => hno ⟨hsup, hall⟩, fun hall => ?_⟩
      obtain ⟨lo', h', hsame', hafter, hwords⟩ := ihrun hall.2
      refine ⟨lo', h', ?_, hafter, List.forall_mem_cons.mpr ⟨?_, ?_⟩⟩
      · refine (hsame.mono fun x hx => ⟨r, List.mem_cons_self, hx⟩).trans (hsame'.mono ?_)
        rintro x ⟨r', hr', hx⟩
        exact ⟨r', List.mem_cons_of_mem r hr', hx⟩
      · -- the slot of the first relocation is left alone by the others
        intro B hB
        obtain rfl : A = B := Except.ok.inj (hA.symm.trans hB)
        rw [← hword]
        refine hsame'.mem.read32 fun k hk => ?_
        rintro ⟨r', hr', hx⟩
        have hapart := (List.pairwise_cons.mp h.slots_apart).1 r' (List.mem_append_left _ hr')
        exact hapart.not_inWord (inWord_add _ hk) hx
      · -- those of the others are as they were when their turn comes
        intro r' hr' B hB
        refine hwords r' hr' B ?_
        rwa [h.read_slot (List.mem_append_left _ hr') hsame.mem]
    · rw [hfail hsup]
      exact ⟨fun _ => rfl, fun hall => absurd hall.1 hsup⟩

/-- The same of both passes. -/
theorem relocateAll_spec {p : Process} {d : Dynamic} {lo : Loaded} {tab : List Symbol}
    {rs : List Rel} (haddr : rs.map Rel.addr = relAddrs d) (h : WellFormed lo tab rs)
    {lo' : Loaded} (hrun : relocateAll p d lo = .ok lo') :
    ∀ r ∈ rs, r.Supplied p lo.base tab ∧ ∃ A, lo.mem.read32 (r.slot lo.base) = .ok A ∧
      lo'.mem.read32 (r.slot lo.base) = .ok (r.stores p lo.base tab A) := by
  rw [relocateAll, ← haddr, List.foldlM_map] at hrun
  rw [← List.append_nil rs] at h
  obtain ⟨hfail, hok⟩ := run_spec (p := p) h
  have hall : ∀ r ∈ rs, r.Supplied p lo.base tab := by
    by_contra hno
    rw [hfail hno] at hrun
    cases hrun
  obtain ⟨lo₁, h₁, -, -, hwords⟩ := hok hall
  obtain rfl : lo' = lo₁ := Except.ok.inj (hrun.symm.trans h₁)
  intro r hr
  obtain ⟨A, hA⟩ := h.exists_word (List.mem_append_left [] hr)
  exact ⟨hall r hr, A, hA, hwords r hr A hA⟩

/-! ### When the symbol that is taken is the own one -/

/-- **The symbol that is taken means what the own one means.** When the own one is defined, the
first symbol of its name that is defined and has a value has the same value; if the own value is 0,
there is none of that name, and what the process or a stub gives is the base. When it is not defined
and the process resolves it, the library has no such symbol of its name, or has it at the same
place. And it is no weak reference that nothing resolves. -/
structure Agrees (p : Process) (base : UInt32) (tab : List Symbol) (e : Symbol) : Prop where
  own : e.Defined → e.st_value ≠ 0 → ∀ e', (tab.find? fun e' => e'.Answers e.name) = some e' →
    e'.st_value = e.st_value
  zero : e.Defined → e.st_value = 0 →
    (tab.find? fun e' => e'.Answers e.name) = none ∧ outside p e.name = base
  elsewhere : ¬ e.Defined → p.dlsym e.name ≠ 0 →
    ∀ e', (tab.find? fun e' => e'.Answers e.name) = some e' → base + e'.st_value = p.dlsym e.name
  weak : ¬ e.UnresolvedWeak p

/-- **A weak reference that nothing resolves** is given something, if all symbols before it are:
the library has a symbol of its name that is defined and has a value, or it is the name of a
stub. -/
def WeakSupplied (p : Process) (base : UInt32) (tab : List Symbol) (rs : List Rel) : Prop :=
  ∀ before r after e, rs = before ++ r :: after → r.Symbolic → tab[r.sym]? = some e →
    e.UnresolvedWeak p → (∀ r' ∈ before, r'.Supplied p base tab) → given p base tab e.name ≠ 0

section Agrees

variable {p : Process} {base : UInt32} {tab : List Symbol} {e : Symbol}

/-- Of a symbol with a value, which is in the table, some symbol answers to the name. -/
theorem agrees_own_iff (he : e ∈ tab) (hdef : e.Defined) (hvalue : e.st_value ≠ 0) :
    Agrees p base tab e ↔ given p base tab e.name = base + e.st_value := by
  rw [given]
  cases hfind : tab.find? fun e' => e'.Answers e.name with
  | some e' =>
    rw [UInt32.add_right_inj]
    constructor
    · exact fun h => h.own hdef hvalue e' hfind
    · intro h
      refine ⟨fun _ _ e'' h'' => ?_, fun _ hzero => absurd hzero hvalue,
        fun hno => absurd hdef hno, fun hw => hw.1 hdef⟩
      rw [hfind, Option.some.injEq] at h''
      rw [← h'']
      exact h
  | none =>
    -- the symbol itself answers to its name
    have hno := List.find?_eq_none.mp hfind e he
    exact absurd (show e.Answers e.name from ⟨hdef, hvalue, rfl⟩) (by simpa using hno)

/-- Of a symbol whose value is 0, whoever answers to the name lies elsewhere. -/
theorem agrees_zero_iff (hdef : e.Defined) (hzero : e.st_value = 0) :
    Agrees p base tab e ↔ given p base tab e.name = base := by
  rw [given]
  cases hfind : tab.find? fun e' => e'.Answers e.name with
  | some e' =>
    have hans : e'.Answers e.name := by simpa using List.find?_some hfind
    refine iff_of_false (fun h => ?_) fun h => ?_
    · have hnone := (h.zero hdef hzero).1
      rw [hfind] at hnone
      cases hnone
    · have hbase : base + e'.st_value = base + 0 := h.trans (UInt32.add_zero base).symm
      exact hans.2.1 ((UInt32.add_right_inj base).mp hbase)
  | none =>
    exact ⟨fun h => (h.zero hdef hzero).2, fun h => ⟨fun _ hvalue => absurd hzero hvalue,
      fun _ _ => ⟨hfind, h⟩, fun hno => absurd hdef hno, fun hw => hw.1 hdef⟩⟩

/-- Of a reference that the process resolves. -/
theorem agrees_elsewhere_iff (hdef : ¬ e.Defined) (hdlsym : p.dlsym e.name ≠ 0) :
    Agrees p base tab e ↔ given p base tab e.name = p.dlsym e.name := by
  rw [given]
  cases hfind : tab.find? fun e' => e'.Answers e.name with
  | some e' =>
    constructor
    · exact fun h => h.elsewhere hdef hdlsym e' hfind
    · intro h
      refine ⟨fun h => absurd h hdef, fun h => absurd h hdef, fun _ _ e'' h'' => ?_,
        fun hw => hdlsym hw.2.2⟩
      rw [hfind, Option.some.injEq] at h''
      rw [← h'']
      exact h
  | none =>
    refine iff_of_true ⟨fun h => absurd h hdef, fun h => absurd h hdef, fun _ _ e' h' => ?_,
      fun hw => hdlsym hw.2.2⟩ (if_pos hdlsym)
    rw [hfind] at h'
    cases h'

/-- Of a reference that nothing resolves. -/
theorem agrees_unresolved_iff (hdef : ¬ e.Defined) (hdlsym : p.dlsym e.name = 0) :
    Agrees p base tab e ↔ ¬ e.Weak :=
  ⟨fun h hweak => h.weak ⟨hdef, hweak, hdlsym⟩, fun h => ⟨fun hd => absurd hd hdef,
    fun hd => absurd hd hdef, fun _ hne => absurd hdlsym hne, fun hw => h hw.2.1⟩⟩

/-- When something is given for a symbol, it is its meaning exactly when the two agree. -/
theorem agrees_iff (he : e ∈ tab) (hgiven : given p base tab e.name ≠ 0) :
    Agrees p base tab e ↔ ∀ S, e.meaning p base = some S → given p base tab e.name = S := by
  by_cases hdef : e.Defined
  · have hmeaning : e.meaning p base = some (base + e.st_value) := if_pos hdef
    simp only [hmeaning, Option.some.injEq, forall_eq']
    by_cases hzero : e.st_value = 0
    · rw [agrees_zero_iff hdef hzero, hzero, UInt32.add_zero]
    · exact agrees_own_iff he hdef hzero
  · by_cases hdlsym : p.dlsym e.name = 0
    · rw [agrees_unresolved_iff hdef hdlsym, Symbol.meaning, if_neg hdef,
        if_neg (not_not.mpr hdlsym)]
      by_cases hweak : e.Weak
      · simp [hweak, hgiven]
      · simp [hweak]
    · have hmeaning : e.meaning p base = some (p.dlsym e.name) := by
        rw [Symbol.meaning, if_neg hdef, if_pos hdlsym]
      simp only [hmeaning, Option.some.injEq, forall_eq']
      exact agrees_elsewhere_iff hdef hdlsym

end Agrees

/-! ### When the relocations have the meaning of the ABI -/

/-- A load that succeeds has applied the relocations. -/
theorem relocated_of_succeeds {p : Process} {file : Bytes} {want : List Name} {ph : List Phdr}
    {d : Dynamic} {lo : Loaded} (h : Succeeds p file want)
    (himage : image p file = .ok (ph, d, lo)) : ∃ lo', relocateAll p d lo = .ok lo' := by
  obtain ⟨lo₁, out, hopen, -⟩ := h
  obtain ⟨f, hf, hload, -⟩ := elfloadOpen_eq_ok.mp hopen
  cases hf
  rw [load_eq, himage, ok_bind] at hload
  obtain ⟨lo', hlo', -⟩ := bind_eq_ok.mp hload
  exact ⟨lo', hlo'⟩

/-- What the ABI asks for, of a relocation with a symbol. -/
theorem asks_iff {p : Process} {lo : Loaded} {tab : List Symbol} {r : Rel} {e : Symbol}
    {A v : UInt32} (hsym : r.Symbolic) (he : tab[r.sym]? = some e)
    (hA : lo.mem.read32 (r.slot lo.base) = .ok A) :
    r.Asks p lo tab v ↔ ∃ S, e.meaning p lo.base = some S ∧
      v = if r.type = R_ARM_ABS32 then S + A else S := by
  constructor
  · rintro (⟨hrel, -⟩ | ⟨htype, he', hS⟩ | ⟨htype, hB, he', hS⟩)
    · exact absurd hrel hsym.not_relative
    · obtain rfl := Option.some.inj (he.symm.trans he')
      have hnot : r.type ≠ R_ARM_ABS32 := by
        rcases htype with h | h <;> rw [h] <;> decide
      exact ⟨v, hS, (if_neg hnot).symm⟩
    · obtain rfl := Option.some.inj (he.symm.trans he')
      obtain rfl := Except.ok.inj (hA.symm.trans hB)
      exact ⟨_, hS, (if_pos htype).symm⟩
  · rintro ⟨S, hS, rfl⟩
    by_cases habs : r.type = R_ARM_ABS32
    · rw [if_pos habs]
      exact .absolute habs hA he hS
    · rw [if_neg habs]
      refine .symbol ?_ he hS
      rcases hsym with h | h | h
      · exact .inl h
      · exact .inr h
      · exact absurd h habs

/-- The words, when the relocations have been applied. -/
theorem words_iff {p : Process} {d : Dynamic} {lo lo' : Loaded} {tab : List Symbol}
    {rs : List Rel} (haddr : rs.map Rel.addr = relAddrs d) (h : WellFormed lo tab rs)
    (hrun : relocateAll p d lo = .ok lo') :
    (∀ r ∈ rs, ∀ v, r.Asks p lo tab v → lo'.mem.read32 (r.slot lo.base) = .ok v) ↔
      ∀ r ∈ rs, r.Symbolic → ∀ e, tab[r.sym]? = some e → Agrees p lo.base tab e := by
  refine forall₂_congr fun r hr => ?_
  obtain ⟨hsup, A, hA, hword⟩ := relocateAll_spec haddr h hrun r hr
  rw [hword]
  rcases h.types r hr with hrel | hsym
  · refine iff_of_true (fun v hv => ?_) fun hsym => absurd hrel hsym.not_relative
    rw [Rel.stores, if_pos hrel]
    cases hv with
    | relative _ hB =>
      obtain rfl := Except.ok.inj (hA.symm.trans hB)
      rw [UInt32.add_comm]
    | symbol htype => exact absurd hrel (Rel.Symbolic.not_relative (by tauto))
    | absolute htype => exact absurd hrel (Rel.Symbolic.not_relative (.inr (.inr htype)))
  · obtain ⟨e, he⟩ : ∃ e, tab[r.sym]? = some e :=
      ⟨_, List.getElem?_eq_getElem (h.sym_lt r hr hsym)⟩
    have hgiven : given p lo.base tab e.name ≠ 0 := (supplied_iff hsym he).mp hsup
    have hagrees : (r.Symbolic → ∀ e, tab[r.sym]? = some e → Agrees p lo.base tab e) ↔
        ∀ S, e.meaning p lo.base = some S → given p lo.base tab e.name = S := by
      rw [← agrees_iff (List.mem_of_getElem? he) hgiven]
      refine ⟨fun hall => hall hsym e he, fun hone _ e' he' => ?_⟩
      rw [← Option.some.inj (he.symm.trans he')]
      exact hone
    have hstores : r.stores p lo.base tab A = if r.type = R_ARM_ABS32 then
        given p lo.base tab e.name + A else given p lo.base tab e.name := by
      rw [Rel.stores, if_neg hsym.not_relative, val_eq he, UInt32.add_comm]
    rw [hagrees, hstores]
    simp only [asks_iff hsym he hA, Except.ok.injEq]
    constructor
    · intro hall S hS
      have hv := hall _ ⟨S, hS, rfl⟩
      split at hv
      · exact (UInt32.add_left_inj A).mp hv
      · exact hv
    · rintro hall v ⟨S, hS, rfl⟩
      rw [hall S hS]

/-- A relocation with a weak reference that nothing resolves, when its turn comes. -/
theorem stopsAtWeak_iff {p : Process} {lo : Loaded} {tab : List Symbol} {rs : List Rel}
    (h : WellFormed lo tab rs) : ¬ StopsAtWeak p lo tab rs ↔ WeakSupplied p lo.base tab rs := by
  -- the relocation is carried out when its turn comes, or it fails
  have hturn : ∀ before r after lo', rs = before ++ r :: after →
      before.foldlM (fun lo r => relocate p lo r.addr) lo = .ok lo' →
        (relocate p lo' r.addr = .error .failed ↔ ¬ r.Supplied p lo.base tab) := by
    rintro before r after lo' rfl hrun
    obtain ⟨hfail, hok⟩ := run_spec (p := p) h
    have hall : ∀ r ∈ before, r.Supplied p lo.base tab := by
      by_contra hno
      rw [hfail hno] at hrun
      cases hrun
    obtain ⟨lo₁, h₁, hsame, hafter, -⟩ := hok hall
    obtain rfl : lo' = lo₁ := Except.ok.inj (hrun.symm.trans h₁)
    obtain ⟨A, hA⟩ := hafter.exists_word List.mem_cons_self
    have hspec := relocate_spec (p := p) hafter List.mem_cons_self hA
    rw [hsame.base] at hspec
    refine ⟨fun hfailed hsup => ?_, hspec.1⟩
    obtain ⟨lo₂, h₂, -⟩ := hspec.2 hsup
    rw [h₂] at hfailed
    cases hfailed
  constructor
  · rintro hno before r after e hrs hsym he hweak hall
    have hsplit : WellFormed lo tab (before ++ r :: after) := hrs ▸ h
    obtain ⟨lo', hrun, -⟩ := (run_spec (p := p) hsplit).2 hall
    by_contra hgiven
    refine hno ⟨before, r, after, lo', e, hrs, hrun, hsym, he, hweak, ?_⟩
    exact (hturn before r after lo' hrs hrun).mpr fun hs =>
      (supplied_iff hsym he).mp hs hgiven
  · rintro hall ⟨before, r, after, lo', e, hrs, hrun, hsym, he, hweak, hfailed⟩
    have hsplit : WellFormed lo tab (before ++ r :: after) := hrs ▸ h
    have hbefore : ∀ r' ∈ before, r'.Supplied p lo.base tab := by
      by_contra hno
      rw [(run_spec (p := p) hsplit).1 hno] at hrun
      cases hrun
    refine (hturn before r after lo' hrs hrun).mp hfailed ?_
    exact (supplied_iff hsym he).mpr (hall before r after e hrs hsym he hweak hbefore)

/-- **When the relocations have the meaning of the ABI**: whatever the file, the process and the
symbols that are wanted are. -/
theorem abiMeaning_iff (p : Process) (file : Bytes) (want : List Name) :
    AbiMeaning p file want ↔
      ∀ ph d lo tab rs, image p file = .ok (ph, d, lo) → rs.map Rel.addr = relAddrs d →
        WellFormed lo tab rs →
          (Succeeds p file want → ∀ r ∈ rs, r.Symbolic → ∀ e, tab[r.sym]? = some e →
            Agrees p lo.base tab e) ∧ WeakSupplied p lo.base tab rs := by
  constructor
  · rintro ⟨hwords, hweak⟩ ph d lo tab rs himage haddr h
    refine ⟨fun hsucceeds => ?_, (stopsAtWeak_iff h).mp (hweak ph d lo tab rs himage haddr h)⟩
    obtain ⟨lo', hrun⟩ := relocated_of_succeeds hsucceeds himage
    exact (words_iff haddr h hrun).mp (hwords hsucceeds ph d lo tab rs himage haddr h lo' hrun)
  · intro hall
    refine ⟨fun hsucceeds ph d lo tab rs himage haddr h lo' hrun => ?_,
      fun ph d lo tab rs himage haddr h => ?_⟩
    · exact (words_iff haddr h hrun).mpr ((hall ph d lo tab rs himage haddr h).1 hsucceeds)
    · exact (stopsAtWeak_iff h).mpr (hall ph d lo tab rs himage haddr h).2

/-! ### Symbols without a name -/

/-- A library whose symbols are those of two sections, which have no names, with a relocation of
type `R_ARM_ABS32` for the second: the header, a segment with everything, the table of `PT_DYNAMIC`,
the hash table, the symbols, no strings, the relocation, and the word that it is for. -/
def twoSections : Bytes :=
  [0x7f, 0x45, 0x4c, 0x46, 1, 1, 1, 0, 0, 0, 0, 0, 0, 0, 0, 0] ++
    ([3 + 40 * 65536, 1, 0, 52, 0, 0x05000000, 52 + 32 * 65536, 2, 0,
      1, 0, 0, 0, 284, 284, 6, 4096,
      2, 116, 116, 116, 80, 80, 6, 4,
      4, 196, 6, 220, 11, 16, 5, 268, 10, 1, 17, 272, 18, 8, 19, 8, 16, 0, 0, 0,
      1, 3, 0, 0, 0, 0,
      0, 0, 0, 0,
      0, 196, 0, 3 + 65536,
      0, 280, 0, 3 + 2 * 65536,
      0,
      280, 2 + 2 * 256,
      4] : List ℕ).flatMap packU32

def twoSectionsTable : List Symbol :=
  [⟨0, 0, 0, 0, []⟩, ⟨0, 196, 3, 1, []⟩, ⟨0, 280, 3, 2, []⟩]

def twoSectionsRel : Rel := ⟨0x40000110, 280, 2 + 2 * 256⟩

/-- The relocation for the second section takes the first one. -/
theorem abiMeaning_not_always :
    ¬ ∀ (p : Process) (file : Bytes) (want : List Name), AbiMeaning p file want := by
  intro hall
  have hformed : (image forwarding twoSections).map (fun r =>
      decide ([twoSectionsRel].map Rel.addr = relAddrs r.2.1 ∧
        WellFormed r.2.2 twoSectionsTable [twoSectionsRel])) = .ok true := by
    decide +kernel
  have hopen : (elfloadOpen forwarding (some twoSections) []).map (fun r => r.1.base) =
      .ok 0x40000000 := by
    decide +kernel
  have hsucceeds : Succeeds forwarding twoSections [] := by
    cases hr : elfloadOpen forwarding (some twoSections) [] with
    | error e =>
      rw [hr] at hopen
      cases hopen
    | ok r =>
      rw [hr] at hopen
      have hbase : r.1.base = 0x40000000 := Except.ok.inj hopen
      exact ⟨r.1, r.2, hr, by rw [hbase]; decide⟩
  cases himage : image forwarding twoSections with
  | error e =>
    rw [himage] at hformed
    cases hformed
  | ok r =>
    obtain ⟨ph, d, lo⟩ := r
    rw [himage] at hformed
    obtain ⟨haddr, h⟩ := of_decide_eq_true (Except.ok.inj hformed)
    obtain ⟨lo', hrun⟩ := relocated_of_succeeds hsucceeds himage
    have hwords := (hall forwarding twoSections []).words hsucceeds ph d lo _ _ himage haddr h lo'
      hrun
    have hagrees := (words_iff haddr h hrun).mp hwords twoSectionsRel (List.mem_singleton_self _)
      (by decide) ⟨0, 280, 3, 2, []⟩ (by decide)
    have hown := hagrees.own (by decide) (by decide) ⟨0, 196, 3, 1, []⟩ (by decide)
    revert hown
    decide

end Camera

end A1000

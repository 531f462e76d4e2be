import A1000.Camera.Elfload
import A1000.Lib.Frame

/-!
# The symbol table of a library

A table of symbols in memory, whose strings come to an end, is a list of symbols. For such a table
the search of the loader is the search of a list, and what is given for a name is decided by the
first symbol that is defined, has a value and has the name.

## Main definitions

* `Camera.Symbol`, `Camera.Symbols` — a symbol, and the table in memory
* `Camera.Symbol.Answers`, `Camera.given` — the symbol that is taken for a name

## Main results

* `Camera.resolve_eq` — what a name is resolved to
* `Camera.Symbols.frame` — when the table stays what it is
-/

namespace A1000

namespace Camera

open Bytes Fallible Window

/-! ### Symbols -/

def STB_WEAK : UInt8 := 2

/-- A symbol of the table, with its name. -/
structure Symbol where
  st_name : UInt32
  st_value : UInt32
  st_info : UInt8
  st_shndx : ℕ
  name : Name
  deriving DecidableEq, Repr

namespace Symbol

/-- The symbol is defined in the library. -/
def Defined (e : Symbol) : Prop := e.st_shndx ≠ SHN_UNDEF

/-- `ELF32_ST_BIND`. -/
def Weak (e : Symbol) : Prop := e.st_info >>> 4 = STB_WEAK

/-- The symbol is taken for the name. -/
def Answers (s : Name) (e : Symbol) : Prop := e.Defined ∧ e.st_value ≠ 0 ∧ e.name = s

instance (e : Symbol) : Decidable e.Defined := inferInstanceAs (Decidable (_ ≠ _))

instance (e : Symbol) : Decidable e.Weak := inferInstanceAs (Decidable (_ = _))

instance (s : Name) (e : Symbol) : Decidable (e.Answers s) :=
  inferInstanceAs (Decidable (_ ∧ _ ∧ _))

end Symbol

/-- The symbol number `i` is in memory. -/
structure IsSymbol (lo : Loaded) (i : ℕ) (e : Symbol) : Prop where
  st_name : lo.st_name i = .ok e.st_name
  st_value : lo.st_value i = .ok e.st_value
  st_info : lo.mem.read8 (lo.symbol i + 12) = .ok e.st_info
  st_shndx : lo.st_shndx i = .ok e.st_shndx
  name : lo.mem.cstr (lo.strtab + e.st_name) = .ok e.name

/-- **The table in memory.** -/
def Symbols (lo : Loaded) (tab : List Symbol) : Prop :=
  tab.length = lo.nsyms.toNat ∧ ∀ i e, tab[i]? = some e → IsSymbol lo i e

instance (lo : Loaded) (i : ℕ) (e : Symbol) : Decidable (IsSymbol lo i e) :=
  decidable_of_iff (lo.st_name i = .ok e.st_name ∧ lo.st_value i = .ok e.st_value ∧
      lo.mem.read8 (lo.symbol i + 12) = .ok e.st_info ∧ lo.st_shndx i = .ok e.st_shndx ∧
        lo.mem.cstr (lo.strtab + e.st_name) = .ok e.name)
    ⟨fun h => ⟨h.1, h.2.1, h.2.2.1, h.2.2.2.1, h.2.2.2.2⟩, fun h => ⟨h.1, h.2, h.3, h.4, h.5⟩⟩

instance (lo : Loaded) (tab : List Symbol) : Decidable (Symbols lo tab) :=
  decidable_of_iff (tab.length = lo.nsyms.toNat ∧ ∀ q ∈ tab.zipIdx, IsSymbol lo q.2 q.1) <|
    and_congr_right fun _ => ⟨fun h i e hi => h (e, i) (List.mem_zipIdx_iff_getElem?.mpr hi),
      fun h q hq => h q.2 q.1 (List.mem_zipIdx_iff_getElem?.mp hq)⟩

/-! ### The search -/

theorem IsSymbol.named {lo : Loaded} {i : ℕ} {e : Symbol} (h : IsSymbol lo i e) {s : Name}
    (hs : 0 ∉ s) : lo.named i s = .ok (decide (e.name = s)) := by
  rw [Loaded.named, h.st_name, ok_bind]
  exact strcmp_of_cstr h.name hs

/-- The search from a place on. -/
theorem lookupFrom_eq {lo : Loaded} {s : Name} (hs : 0 ∉ s) (l : List Symbol) (i : ℕ)
    (h : ∀ j e, l[j]? = some e → IsSymbol lo (i + j) e) :
    lo.lookupFrom s l.length i =
      .ok ((l.find? fun e => e.Answers s).map fun e => lo.base + e.st_value) := by
  induction l generalizing i with
  | nil => rfl
  | cons e l ih =>
    have he : IsSymbol lo i e := h 0 e rfl
    have hrest : lo.lookupFrom s l.length (i + 1) =
        .ok ((l.find? fun e => e.Answers s).map fun e => lo.base + e.st_value) := by
      refine ih (i + 1) fun j e' hj => ?_
      rw [Nat.add_right_comm, Nat.add_assoc]
      exact h (j + 1) e' hj
    rw [List.length_cons, Loaded.lookupFrom, he.st_shndx, ok_bind]
    by_cases hdef : e.Defined
    · rw [if_neg hdef, he.st_value, ok_bind]
      by_cases hvalue : e.st_value = 0
      · have hno : ¬ e.Answers s := fun ha => ha.2.1 hvalue
        rw [if_pos hvalue, hrest, List.find?_cons_of_neg (by simpa using hno)]
      · rw [if_neg hvalue, he.named hs, ok_bind]
        by_cases hname : e.name = s
        · have hyes : e.Answers s := ⟨hdef, hvalue, hname⟩
          rw [decide_eq_true hname, List.find?_cons_of_pos (by simpa using hyes)]
          rfl
        · have hno : ¬ e.Answers s := fun ha => hname ha.2.2
          rw [decide_eq_false hname, List.find?_cons_of_neg (by simpa using hno)]
          exact hrest
    · have hno : ¬ e.Answers s := fun ha => hdef ha.1
      rw [if_pos (not_not.mp hdef), hrest, List.find?_cons_of_neg (by simpa using hno)]

/-- What is given for a name. -/
def given (p : Process) (base : UInt32) (tab : List Symbol) (s : Name) : UInt32 :=
  match tab.find? fun e => e.Answers s with
  | some e => base + e.st_value
  | none => outside p s

/-- **What a name is resolved to.** -/
theorem resolve_eq {p : Process} {lo : Loaded} {tab : List Symbol} (h : Symbols lo tab) {s : Name}
    (hs : 0 ∉ s) : resolve p lo s = .ok (given p lo.base tab s) := by
  have hlookup : lo.lookup s =
      .ok ((tab.find? fun e => e.Answers s).map fun e => lo.base + e.st_value) := by
    rw [Loaded.lookup, ← h.1]
    exact lookupFrom_eq hs tab 0 fun j e hj => by rw [Nat.zero_add]; exact h.2 j e hj
  rw [resolve, hlookup, ok_bind, given]
  cases tab.find? fun e => e.Answers s <;> rfl

/-- The name of a symbol ends with its first 0. -/
theorem Symbols.zero_notMem {lo : Loaded} {tab : List Symbol} (h : Symbols lo tab) {e : Symbol}
    (he : e ∈ tab) : 0 ∉ e.name := by
  obtain ⟨i, hi⟩ := List.getElem?_of_mem he
  exact zero_notMem_of_cstr (h.2 i e hi).name

/-! ### What the table needs of memory -/

/-- The addresses of the table: those of the symbols, and those of their names. -/
structure TableApart (lo : Loaded) (tab : List Symbol) (S : UInt32 → Prop) : Prop where
  symbols : ∀ i < tab.length, ∀ k < 16, ¬ S (lo.symbol i + .ofNat k)
  names : ∀ e ∈ tab, ∀ k < e.name.length + 1, ¬ S (lo.strtab + e.st_name + .ofNat k)

instance (lo : Loaded) (tab : List Symbol) (S : UInt32 → Prop) [DecidablePred S] :
    Decidable (TableApart lo tab S) :=
  decidable_of_iff ((∀ i < tab.length, ∀ k < 16, ¬ S (lo.symbol i + .ofNat k)) ∧
      ∀ e ∈ tab, ∀ k < e.name.length + 1, ¬ S (lo.strtab + e.st_name + .ofNat k))
    ⟨fun h => ⟨h.1, h.2⟩, fun h => ⟨h.1, h.2⟩⟩

/-- The library with other contents in some places. -/
structure Loaded.SameBut (S : UInt32 → Prop) (lo lo' : Loaded) : Prop where
  base : lo'.base = lo.base
  symtab : lo'.symtab = lo.symtab
  strtab : lo'.strtab = lo.strtab
  nsyms : lo'.nsyms = lo.nsyms
  mem : Window.SameBut S lo.mem lo'.mem

theorem Loaded.SameBut.refl (S : UInt32 → Prop) (lo : Loaded) : Loaded.SameBut S lo lo :=
  ⟨rfl, rfl, rfl, rfl, .refl S lo.mem⟩

theorem Loaded.SameBut.trans {S : UInt32 → Prop} {lo lo' lo'' : Loaded}
    (h : Loaded.SameBut S lo lo') (h' : Loaded.SameBut S lo' lo'') : Loaded.SameBut S lo lo'' where
  base := h'.base.trans h.base
  symtab := h'.symtab.trans h.symtab
  strtab := h'.strtab.trans h.strtab
  nsyms := h'.nsyms.trans h.nsyms
  mem := h.mem.trans h'.mem

theorem Loaded.SameBut.mono {S T : UInt32 → Prop} {lo lo' : Loaded} (h : Loaded.SameBut S lo lo')
    (hST : ∀ a, S a → T a) : Loaded.SameBut T lo lo' :=
  { h with mem := h.mem.mono hST }

/-- **The table stays what it is** when nothing is written to it. -/
theorem Symbols.frame {S : UInt32 → Prop} {lo lo' : Loaded} {tab : List Symbol}
    (h : Symbols lo tab) (hsame : Loaded.SameBut S lo lo') (hapart : TableApart lo tab S) :
    Symbols lo' tab := by
  refine ⟨by rw [hsame.nsyms]; exact h.1, fun i e hi => ?_⟩
  obtain ⟨hlt, -⟩ := List.getElem?_eq_some_iff.mp hi
  have he := h.2 i e hi
  have hsymbol : lo'.symbol i = lo.symbol i := by rw [Loaded.symbol, Loaded.symbol, hsame.symtab]
  have hfield : ∀ n k, n + k < 16 → ¬ S (lo.symbol i + .ofNat n + .ofNat k) := by
    intro n k hnk
    rw [add_ofNat_add]
    exact hapart.symbols i hlt (n + k) hnk
  refine ⟨?_, ?_, ?_, ?_, ?_⟩
  · rw [Loaded.st_name, hsymbol, hsame.mem.read32 fun k hk => hapart.symbols i hlt k (by omega)]
    exact he.st_name
  · have hvalue : lo'.mem.read32 (lo.symbol i + 4) = lo.mem.read32 (lo.symbol i + 4) :=
      hsame.mem.read32 fun k hk => hfield 4 k (by omega)
    rw [Loaded.st_value, hsymbol, hvalue]
    exact he.st_value
  · have hinfo := hfield 12 0 (by decide)
    rw [hsymbol, hsame.mem.read8 (by simpa using hinfo)]
    exact he.st_info
  · have hshndx : lo'.mem.read16 (lo.symbol i + 14) = lo.mem.read16 (lo.symbol i + 14) :=
      hsame.mem.read16 fun k hk => hfield 14 k (by omega)
    rw [Loaded.st_shndx, hsymbol, hshndx]
    exact he.st_shndx
  · rw [hsame.strtab]
    exact hsame.mem.cstr he.name (hapart.names e (List.mem_of_getElem? hi))

end Camera

end A1000

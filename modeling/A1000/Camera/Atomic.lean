import A1000.Camera.Confined
import A1000.Lib.Ledger
import Mathlib.Logic.Function.Basic

/-!
# A load that fails

Every way to the label `fail` gives back the mapping, the block and the descriptor. But the symbols
that are wanted are looked up last, when the initializers of the library have been run, and each is
stored in `out` before it is known whether there is one. And a library that is loaded at the address
0, counted from its first page, is returned as null although it stays.

## Main definitions

* `Camera.Loader.LeavesNoTrace` — nothing is left of what has been done
* `Camera.Loader.Linked` — the library with its relocations and protections
* `Camera.Loader.NoInitializer`, `Camera.Loader.AlreadyStored` — there is nothing to be undone

## Main results

* `Camera.Loader.released_of_failed` — what the label `fail` does
* `Camera.Loader.atomic_iff` — when a load that returns null leaves no trace
-/

namespace A1000

namespace Camera

namespace Loader

open Bytes Fallible Traced Ledger

/-! ### What is promised -/

/-- What the loader takes. -/
inductive Resource
  | fd
  | block
  | mapping (start span : UInt32)
  deriving DecidableEq, Repr

/-- What is done with it. -/
def Event.ledger : Event → Option (Ledger.Event Resource)
  | .opened => some (.acquire .fd)
  | .closed => some (.release .fd)
  | .malloced _ => some (.acquire .block)
  | .phdr _ _ => some (.use .block)
  | .freed => some (.release .block)
  | .mapped start span => some (.acquire (.mapping start span))
  | .unmapped start span => some (.release (.mapping start span))
  | _ => none

def ledger (es : List Event) : List (Ledger.Event Resource) := es.filterMap Event.ledger

/-- What is stored. -/
def Event.store : Event → Option (ℕ × UInt32)
  | .stored i a => some (i, a)
  | _ => none

/-- The array of the caller, after stores. -/
def storeAll (out : ℕ → UInt32) (stores : List (ℕ × UInt32)) : ℕ → UInt32 :=
  stores.foldl (fun out s => Function.update out s.1 s.2) out

/-- The array of the caller, after all that has happened. -/
def outAfter (out : ℕ → UInt32) (es : List Event) : ℕ → UInt32 :=
  storeAll out (es.filterMap Event.store)

/-- **Nothing is left**: the array of the caller is what it was, everything that was taken has been
given back once and not been used after that, and no initializer has been called. -/
structure LeavesNoTrace (out : ℕ → UInt32) (es : List Event) : Prop where
  out : outAfter out es = out
  released : ∀ r, .acquire r ∈ ledger es → ReleasedOnce r (ledger es)
  uncalled : ∀ fn, .called fn ∉ es

/-- A load that returns null leaves no trace. -/
def Atomic (out : ℕ → UInt32) (o : Load (Loaded × List UInt32)) : Prop :=
  ReturnsNull o.result → LeavesNoTrace out o.events

/-! ### The condition -/

/-- The library with its relocations and protections, before the initializers. -/
def Linked (p : Process) (sur : Surroundings) (file : Bytes) (d : Dynamic) (lo : Loaded) : Prop :=
  ∃ block ph start span base mem, HasTable sur file block ph ∧ HasMapping p ph start span base ∧
    (readSegments sur file base ph (sur.memory start span)).result = .ok mem ∧
      (linkImage p sur ph base mem).result = .ok (d, lo)

/-- There is a symbol of that name. -/
def Found (p : Process) (lo : Loaded) (s : Name) : Prop := ∃ a, resolve p lo s = .ok a ∧ a ≠ 0

/-- One of the symbols that are wanted is not there, and those before it are. -/
def Missing (p : Process) (lo : Loaded) (want : List Name) : Prop :=
  ∃ j s, want[j]? = some s ∧ resolve p lo s = .ok 0 ∧ ∀ t ∈ want.take j, Found p lo t

/-- The table of initializers holds nothing but 0 and -1. -/
def NoInitializer (d : Dynamic) (lo : Loaded) : Prop :=
  ∀ fn ∈ initEntries lo.base d.init_array d.init_arraysz, ∀ f, lo.mem.read32 fn = .ok f →
    f = 0 ∨ f = 0xffffffff

/-- The array of the caller holds already what is stored, as far as the symbols are found. -/
def AlreadyStored (p : Process) (lo : Loaded) (want : List Name) (out : ℕ → UInt32) : Prop :=
  ∀ j s a, want[j]? = some s → resolve p lo s = .ok a → (∀ t ∈ want.take j, Found p lo t) →
    out j = a

/-- **When nothing is left to undo.** If the initializers have been run and a symbol is missing,
there were none, and the array holds what is stored; and if no symbol is missing, the library is not
loaded at 0. -/
def NothingToUndo (p : Process) (sur : Surroundings) (file : Bytes) (want : List Name)
    (out : ℕ → UInt32) : Prop :=
  ∀ d lo lo', Linked p sur file d lo → (runInitializers p d lo).result = .ok lo' →
    (Missing p lo' want → NoInitializer d lo ∧ AlreadyStored p lo' want out) ∧
      ((∀ s ∈ want, Found p lo' s) → lo'.base ≠ 0)

/-! ### The symbols that are wanted -/

theorem read8_ne_failed (m : Window) (a : UInt32) : m.read8 a ≠ .error .failed := by
  rw [Window.read8]
  split
  · rintro ⟨⟩
  · rintro ⟨⟩

theorem read_ne_failed (m : Window) (n : ℕ) (a : UInt32) : m.read n a ≠ .error .failed := by
  induction n generalizing a with
  | zero => rintro ⟨⟩
  | succ n ih =>
    exact bind_ne_error (read8_ne_failed m a) fun b => bind_ne_error (ih _) fun bs => by rintro ⟨⟩

theorem strcmp_ne_failed (m : Window) (a : UInt32) (s : Name) :
    m.strcmp a s ≠ .error .failed := by
  induction s generalizing a with
  | nil => exact bind_ne_error (read8_ne_failed m a) fun b => by rintro ⟨⟩
  | cons c s ih =>
    refine bind_ne_error (read8_ne_failed m a) fun b => ?_
    split
    · exact ih _
    · rintro ⟨⟩

theorem lookupFrom_ne_failed (lo : Loaded) (s : Name) (n i : ℕ) :
    lo.lookupFrom s n i ≠ .error .failed := by
  have hread32 : ∀ a, lo.mem.read32 a ≠ .error .failed := fun a =>
    bind_ne_error (read_ne_failed _ _ _) fun b => by rintro ⟨⟩
  induction n generalizing i with
  | zero => rintro ⟨⟩
  | succ n ih =>
    rw [Loaded.lookupFrom]
    refine bind_ne_error (bind_ne_error (read_ne_failed _ _ _) fun b => by rintro ⟨⟩) fun b => ?_
    split
    · exact ih _
    · refine bind_ne_error (hread32 _) fun value => ?_
      split
      · exact ih _
      · refine bind_ne_error (bind_ne_error (hread32 _) fun n => strcmp_ne_failed _ _ _)
          fun named => ?_
        split
        · rintro ⟨⟩
        · exact ih _

/-- `resolve` does not fail; it gives null. -/
theorem resolve_ne_failed (p : Process) (lo : Loaded) (s : Name) :
    resolve p lo s ≠ .error .failed := by
  refine bind_ne_error (lookupFrom_ne_failed lo s _ _) fun r => ?_
  cases r <;> rintro ⟨⟩

theorem missing_cons {p : Process} {lo : Loaded} {s : Name} {want : List Name} :
    Missing p lo (s :: want) ↔ resolve p lo s = .ok 0 ∨ Found p lo s ∧ Missing p lo want := by
  constructor
  · rintro ⟨j, t, ht, hzero, hbefore⟩
    cases j with
    | zero =>
      cases ht
      exact .inl hzero
    | succ j =>
      rw [List.take_succ_cons, List.forall_mem_cons] at hbefore
      exact .inr ⟨hbefore.1, j, t, ht, hzero, hbefore.2⟩
  · rintro (hzero | ⟨hs, j, t, ht, hzero, hbefore⟩)
    · exact ⟨0, s, rfl, hzero, by simp⟩
    · refine ⟨j + 1, t, ht, hzero, ?_⟩
      rw [List.take_succ_cons, List.forall_mem_cons]
      exact ⟨hs, hbefore⟩

/-- The lookup of one symbol more. -/
theorem storeWanted_cons {p : Process} {lo : Loaded} {s : Name} {a : UInt32}
    (h : resolve p lo s = .ok a) (i : ℕ) (want : List Name) :
    (storeWanted p lo i (s :: want)).result =
      if a = 0 then .error .failed
      else (storeWanted p lo (i + 1) want).result >>= fun out => .ok (a :: out) := by
  rw [storeWanted, result_bind, result_lift, h, ok_bind, result_bind, result_emit, ok_bind]
  split
  · rfl
  · rw [result_bind]
    rfl

/-- When the symbols are looked up without an error. -/
theorem storeWanted_ok_iff {p : Process} {lo : Loaded} {i : ℕ} {want : List Name} :
    (∃ out, (storeWanted p lo i want).result = .ok out) ↔ ∀ s ∈ want, Found p lo s := by
  induction want generalizing i with
  | nil => exact iff_of_true ⟨[], rfl⟩ (by simp)
  | cons s want ih =>
    rw [List.forall_mem_cons]
    cases hs : resolve p lo s with
    | error e =>
      refine iff_of_false ?_ ?_
      · rintro ⟨out, hout⟩
        rw [storeWanted, result_bind, result_lift, hs] at hout
        cases hout
      · rintro ⟨⟨a, ha, -⟩, -⟩
        rw [hs] at ha
        cases ha
    | ok a =>
      rw [storeWanted_cons hs]
      by_cases hzero : a = 0
      · rw [if_pos hzero]
        refine iff_of_false (by rintro ⟨out, ⟨⟩⟩) ?_
        rintro ⟨⟨b, hb, hne⟩, -⟩
        rw [hs, Except.ok.injEq] at hb
        exact hne (hb ▸ hzero)
      · rw [if_neg hzero, ← ih (i := i + 1)]
        constructor
        · rintro ⟨out, hout⟩
          obtain ⟨out', hout', -⟩ := bind_eq_ok.mp hout
          exact ⟨⟨a, hs, hzero⟩, out', hout'⟩
        · rintro ⟨-, out, hout⟩
          exact ⟨a :: out, bind_eq_ok.mpr ⟨out, hout, rfl⟩⟩

/-- When that fails. -/
theorem storeWanted_failed_iff {p : Process} {lo : Loaded} {i : ℕ} {want : List Name} :
    (storeWanted p lo i want).result = .error .failed ↔ Missing p lo want := by
  induction want generalizing i with
  | nil => exact iff_of_false (by rintro ⟨⟩) (by rintro ⟨j, s, hs, -⟩; cases hs)
  | cons s want ih =>
    rw [missing_cons]
    cases hs : resolve p lo s with
    | error e =>
      refine iff_of_false ?_ ?_
      · intro h
        rw [storeWanted, result_bind, result_lift, hs, error_bind] at h
        cases h
        exact resolve_ne_failed p lo s hs
      · rintro (h | ⟨⟨a, h, -⟩, -⟩)
        · cases h
        · rw [hs] at h
          cases h
    | ok a =>
      rw [storeWanted_cons hs]
      by_cases hzero : a = 0
      · rw [if_pos hzero, hzero]
        exact iff_of_true rfl (.inl rfl)
      · rw [if_neg hzero, ← ih (i := i + 1)]
        constructor
        · intro h
          refine .inr ⟨⟨a, hs, hzero⟩, ?_⟩
          cases hw : (storeWanted p lo (i + 1) want).result with
          | error e =>
            rw [hw, error_bind] at h
            cases h
            rfl
          | ok out =>
            rw [hw] at h
            cases h
        · rintro (h | ⟨-, h⟩)
          · exact absurd (Except.ok.inj h) hzero
          · rw [h]
            rfl

/-! ### What is stored -/

theorem storeAll_of_notMem {out : ℕ → UInt32} {l : List (ℕ × UInt32)} {i : ℕ}
    (h : i ∉ l.map Prod.fst) : storeAll out l i = out i := by
  induction l generalizing out with
  | nil => rfl
  | cons s l ih =>
    rw [List.map_cons, List.mem_cons, not_or] at h
    rw [storeAll, List.foldl_cons, ← storeAll, ih h.2, Function.update_of_ne h.1]

theorem storeAll_of_mem {out : ℕ → UInt32} {l : List (ℕ × UInt32)} (hl : (l.map Prod.fst).Nodup)
    {s : ℕ × UInt32} (h : s ∈ l) : storeAll out l s.1 = s.2 := by
  induction l generalizing out with
  | nil => cases h
  | cons t l ih =>
    rw [List.map_cons, List.nodup_cons] at hl
    rw [storeAll, List.foldl_cons, ← storeAll]
    rcases List.mem_cons.mp h with rfl | h
    · rw [storeAll_of_notMem hl.1, Function.update_self]
    · exact ih hl.2 h

/-- Stores to different places change nothing exactly when each of them does not. -/
theorem storeAll_eq_iff {out : ℕ → UInt32} {l : List (ℕ × UInt32)}
    (hl : (l.map Prod.fst).Nodup) : storeAll out l = out ↔ ∀ s ∈ l, out s.1 = s.2 := by
  constructor
  · intro h s hs
    have hstored : storeAll out l s.1 = s.2 := storeAll_of_mem hl hs
    rw [← hstored, h]
  · intro h
    funext i
    by_cases hi : i ∈ l.map Prod.fst
    · obtain ⟨s, hs, rfl⟩ := List.mem_map.mp hi
      rw [storeAll_of_mem hl hs, h s hs]
    · exact storeAll_of_notMem hi

/-- The symbols from number `i` on are stored from `out[i]` on. -/
theorem stores_storeWanted (p : Process) (lo : Loaded) (i : ℕ) (want : List Name) :
    ∃ n, ((storeWanted p lo i want).events.filterMap Event.store).map Prod.fst =
      List.range' i n := by
  induction want generalizing i with
  | nil => exact ⟨0, rfl⟩
  | cons s want ih =>
    cases hs : resolve p lo s with
    | error e =>
      refine ⟨0, ?_⟩
      rw [storeWanted, hs]
      rfl
    | ok a =>
      obtain ⟨n, hn⟩ := ih (i + 1)
      rw [storeWanted, events_bind_of_ok (x := lift (resolve p lo s)) hs, events_lift,
        List.nil_append, events_emit_bind]
      split
      · exact ⟨1, rfl⟩
      · refine ⟨n + 1, ?_⟩
        rw [events_bind_pure, List.range'_succ, ← hn]
        rfl

/-- The array of the caller after the symbols have been stored. -/
theorem storeAll_storeWanted {p : Process} {lo : Loaded} {want : List Name}
    {out : ℕ → UInt32} :
    outAfter out (storeWanted p lo 0 want).events = out ↔ AlreadyStored p lo want out := by
  obtain ⟨n, hn⟩ := stores_storeWanted p lo 0 want
  rw [outAfter, storeAll_eq_iff (by rw [hn]; exact List.nodup_range')]
  constructor
  · intro h j s a hs ha hbefore
    have hmem : .stored j a ∈ (storeWanted p lo 0 want).events :=
      mem_storeWanted.mpr ⟨j, s, a, hs, ha, by rw [Nat.zero_add], hbefore⟩
    exact h (j, a) (List.mem_filterMap.mpr ⟨_, hmem, rfl⟩)
  · intro h t ht
    obtain ⟨e, he, hst⟩ := List.mem_filterMap.mp ht
    obtain ⟨j, s, a, hs, ha, rfl, hbefore⟩ := mem_storeWanted.mp he
    cases hst
    rw [Nat.zero_add]
    exact h j s a hs ha hbefore

/-! ### What has been taken -/

theorem ledger_append (es fs : List Event) : ledger (es ++ fs) = ledger es ++ ledger fs :=
  List.filterMap_append

/-- The loops over the table use the block, and the rest of the work takes nothing. -/
theorem uses_touches (fields : Phdr → List ℕ) (ph : List Phdr) :
    ∀ u ∈ ledger (touches fields ph), u = .use .block := by
  intro u hu
  obtain ⟨e, he, hl⟩ := List.mem_filterMap.mp hu
  obtain ⟨_, _, rfl⟩ := kind_of_mem_touches he
  exact (Option.some.inj hl).symm

theorem uses_loadImage (p : Process) (sur : Surroundings) (file : Bytes) (want : List Name)
    (ph : List Phdr) (base : UInt32) (mem₀ : Window) :
    ∀ u ∈ ledger (loadImage p sur file want ph base mem₀).events, u = .use .block := by
  intro u hu
  obtain ⟨e, he, hl⟩ := List.mem_filterMap.mp hu
  obtain (⟨_, _, rfl⟩ | ⟨_, _, rfl⟩) | ⟨_, rfl⟩ | ⟨_, _, rfl⟩ := kind_of_mem_loadImage he
  · exact (Option.some.inj hl).symm
  · cases hl
  · cases hl
  · cases hl

/-- A mapping is taken, and given back on failure. -/
theorem ledger_mapImage {p : Process} {sur : Surroundings} {file : Bytes} {want : List Name}
    {ph : List Phdr} (h : (mapImage p sur file want ph).result = .error .failed) :
    ∃ us ms, ledger (mapImage p sur file want ph).events = us ++ ms ∧
      (∀ u ∈ us, u = .use .block) ∧
        (ms = [] ∨ ∃ us' start span, (∀ u ∈ us', u = .use .block) ∧
          ms = .acquire (.mapping start span) :: us' ++ [.release (.mapping start span)]) := by
  rw [mapImage, result_bind, result_emit, ok_bind] at h
  rw [mapImage, events_emit_bind, ledger_append]
  refine ⟨_, _, rfl, uses_touches _ _, ?_⟩
  dsimp only at h ⊢
  by_cases hlo : (extent ph).1 = 0xffffffff
  · rw [if_pos hlo]
    exact .inl rfl
  · rw [if_neg hlo] at h ⊢
    cases hmap : p.mmap (PAGE_UP (extent ph).2 - PAGE_DOWN (extent ph).1) with
    | none => exact .inl rfl
    | some start =>
      simp only [hmap, result_bind, result_emit, ok_bind, result_undoing] at h
      refine .inr ⟨_, start, PAGE_UP (extent ph).2 - PAGE_DOWN (extent ph).1,
        uses_loadImage p sur file want ph (start - PAGE_DOWN (extent ph).1)
          (sur.memory start (PAGE_UP (extent ph).2 - PAGE_DOWN (extent ph).1)), ?_⟩
      simp only [events_emit_bind, events_undoing_of_failed h, ledger_append]
      rfl

theorem resource_ne_of_uses {us : List (Ledger.Event Resource)}
    (hus : ∀ u ∈ us, u = .use .block) {r : Resource} (hr : r ≠ .block) :
    ∀ u ∈ us, u.resource ≠ r := by
  rintro u hu rfl
  rw [hus u hu] at hr
  exact hr rfl

theorem run_uses {us : List (Ledger.Event Resource)} (hus : ∀ u ∈ us, u = .use .block) :
    run .block (some .held) us = some .held :=
  run_of_forall_use fun u hu => ⟨.block, hus u hu, fun _ => rfl⟩

/-- What is done between `malloc` and `free` uses the block and leaves nothing else behind. -/
theorem settled_mapImage {p : Process} {sur : Surroundings} {file : Bytes} {want : List Name}
    {ph : List Phdr} (h : (mapImage p sur file want ph).result = .error .failed) :
    run .block (some .held) (ledger (mapImage p sur file want ph).events) = some .held ∧
      (∀ r, r ≠ .block → Settled r (ledger (mapImage p sur file want ph).events)) ∧
        ∀ e ∈ ledger (mapImage p sur file want ph).events, e.resource ≠ .fd := by
  obtain ⟨us, ms, hes, hus, hms⟩ := ledger_mapImage h
  rw [hes]
  refine ⟨?_, ?_, ?_⟩
  · rw [run_append, run_uses hus]
    obtain rfl | ⟨us', start, span, hus', rfl⟩ := hms
    · rfl
    · have hacquire : advance Resource.block (some .held) (.acquire (.mapping start span)) =
          some .held := advance_of_ne (by rintro ⟨⟩) _
      have hrelease : advance Resource.block (some .held) (.release (.mapping start span)) =
          some .held := advance_of_ne (by rintro ⟨⟩) _
      rw [run_append, run_cons, run_cons, hacquire, run_uses hus', hrelease, run_nil]
  · intro r hr
    refine .append (resource_ne_of_uses hus hr) ?_
    obtain rfl | ⟨us', start, span, hus', rfl⟩ := hms
    · exact settled_nil r
    · refine settled_bracket (run_of_forall_ne (resource_ne_of_uses hus' (by rintro ⟨⟩)) _)
        fun _ => ?_
      rw [← List.append_nil us']
      exact .append (resource_ne_of_uses hus' hr) (settled_nil r)
  · obtain rfl | ⟨us', start, span, hus', rfl⟩ := hms
    · rw [List.append_nil]
      exact resource_ne_of_uses hus (by rintro ⟨⟩)
    · intro e he
      simp only [List.cons_append, List.mem_append, List.mem_cons, List.not_mem_nil, or_false] at he
      obtain he | rfl | he | rfl := he
      · exact resource_ne_of_uses hus (by rintro ⟨⟩) e he
      · rintro ⟨⟩
      · exact resource_ne_of_uses hus' (by rintro ⟨⟩) e he
      · rintro ⟨⟩

/-- A resource that is taken and given back at once. -/
theorem settled_pair (r₀ r : Resource) :
    Settled r ([.acquire r₀, .release r₀] : List (Ledger.Event Resource)) := by
  have h := @settled_bracket Resource _ r₀ [] rfl r fun _ => settled_nil r
  exact h

/-- The block is given back. -/
theorem settled_readTable {p : Process} {sur : Surroundings} {file : Bytes} {want : List Name}
    {eh : Ehdr} (h : (readTable p sur file want eh).result = .error .failed) :
    (∀ r, Settled r (ledger (readTable p sur file want eh).events)) ∧
      ∀ e ∈ ledger (readTable p sur file want eh).events, e.resource ≠ .fd := by
  rw [readTable] at h ⊢
  by_cases hmalloc : sur.malloc (eh.e_phnum * eh.e_phentsize).toNat = true
  · simp only [if_pos hmalloc, result_bind, result_emit, ok_bind, result_releasing] at h ⊢
    rw [events_emit_bind, events_releasing_of_failed h]
    generalize pread file (eh.e_phnum * eh.e_phentsize) eh.e_phoff = read at h ⊢
    by_cases hn : read.1 < 0
    · simp only [if_pos hn]
      refine ⟨settled_pair .block, ?_⟩
      simp [ledger, Event.ledger, Ledger.Event.resource]
    · simp only [if_neg hn] at h ⊢
      obtain ⟨hblock, hother, hfd⟩ := settled_mapImage h
      rw [ledger_append, ledger_append]
      refine ⟨fun r => settled_bracket hblock (hother r), ?_⟩
      intro e he
      rcases List.mem_append.mp he with he | he
      · cases List.mem_singleton.mp he
        rintro ⟨⟩
      · rcases List.mem_append.mp he with he | he
        · exact hfd e he
        · cases List.mem_singleton.mp he
          rintro ⟨⟩
  · simp only [if_neg hmalloc]
    exact ⟨settled_nil, by simp [ledger]⟩

/-- **What the label `fail` does**: everything that has been taken is given back. -/
theorem released_of_failed {p : Process} {sur : Surroundings} {file : Option Bytes}
    {want : List Name} (h : (elfloadOpen p sur file want).result = .error .failed)
    (r : Resource) : Settled r (ledger (elfloadOpen p sur file want).events) := by
  cases file with
  | none => exact settled_nil r
  | some file =>
    rw [elfloadOpen, result_bind, result_emit, ok_bind, result_releasing] at h
    rw [elfloadOpen, events_emit_bind, events_releasing_of_failed h, ledger_append, ledger_append]
    by_cases hstat : sur.fstat = true
    · rw [if_pos hstat, result_bind, result_lift] at h
      rw [if_pos hstat]
      cases heh : readEhdr file with
      | error e =>
        rw [events_bind_of_error rfl]
        exact settled_pair .fd r
      | ok eh =>
        rw [heh, ok_bind] at h
        obtain ⟨hall, hfd⟩ := settled_readTable h
        rw [events_bind_of_ok rfl, events_lift, List.nil_append]
        exact settled_bracket (run_of_forall_ne hfd _) fun _ => hall r
    · rw [if_neg hstat]
      exact settled_pair .fd r

/-! ### How a load ends -/

theorem Linked.unique {p : Process} {sur : Surroundings} {file : Bytes} {d d' : Dynamic}
    {lo lo' : Loaded} (h : Linked p sur file d lo) (h' : Linked p sur file d' lo') :
    d = d' ∧ lo = lo' := by
  obtain ⟨block, ph, start, span, base, mem, htable, hmap, hread, hlink⟩ := h
  obtain ⟨block', ph', start', span', base', mem', htable', hmap', hread', hlink'⟩ := h'
  obtain ⟨-, rfl⟩ := htable.unique htable'
  obtain ⟨rfl, rfl, rfl⟩ := hmap.unique hmap'
  rw [hread, Except.ok.injEq] at hread'
  subst hread'
  rw [hlink, Except.ok.injEq, Prod.mk.injEq] at hlink'
  exact hlink'

/-- What comes of a library that has been linked. -/
theorem result_of_linked {p : Process} {sur : Surroundings} {file : Bytes} {want : List Name}
    {d : Dynamic} {lo : Loaded} (h : Linked p sur file d lo) :
    (elfloadOpen p sur (some file) want).result = (do
      let lo' ← (runInitializers p d lo).result
      let out ← (storeWanted p lo' 0 want).result
      return (lo', out)) := by
  obtain ⟨block, ph, start, span, base, mem, htable, hmap, hread, hlink⟩ := h
  rw [result_elfloadOpen htable hmap, loadImage, result_bind, hread, ok_bind, result_bind, hlink,
    ok_bind]
  simp only [result_bind, result_pure]
  rfl

/-- When there is a result, the library has been linked. -/
theorem linked_of_ok {p : Process} {sur : Surroundings} {file : Bytes} {want : List Name}
    {r : Loaded × List UInt32} (h : (elfloadOpen p sur (some file) want).result = .ok r) :
    ∃ d lo, Linked p sur file d lo := by
  obtain ⟨block, ph, start, span, base, htable, hmap⟩ := hasMapping_of_ok h
  rw [result_elfloadOpen htable hmap, loadImage, result_bind] at h
  obtain ⟨mem, hread, h⟩ := bind_eq_ok.mp h
  rw [result_bind] at h
  obtain ⟨⟨d, lo⟩, hlink, -⟩ := bind_eq_ok.mp h
  exact ⟨d, lo, block, ph, start, span, base, mem, htable, hmap, hread, hlink⟩

/-- Initializers are called and symbols are stored only when the library has been linked. -/
theorem mem_of_linked {p : Process} {sur : Surroundings} {file : Bytes} {want : List Name}
    {e : Event} (he : (∃ fn, e = .called fn) ∨ ∃ i a, e = .stored i a) :
    e ∈ (elfloadOpen p sur (some file) want).events ↔
      ∃ d lo, Linked p sur file d lo ∧
        (e ∈ (runInitializers p d lo).events ∨
          ∃ lo', (runInitializers p d lo).result = .ok lo' ∧
            e ∈ (storeWanted p lo' 0 want).events) := by
  have hinner : e.Inner := by
    obtain ⟨_, rfl⟩ | ⟨_, _, rfl⟩ := he <;> trivial
  have hphdr : ∀ offset size, e ≠ .phdr offset size := by
    obtain ⟨_, rfl⟩ | ⟨_, _, rfl⟩ := he <;> rintro _ _ ⟨⟩
  have hwritten : ∀ a size, e ≠ .written a size := by
    obtain ⟨_, rfl⟩ | ⟨_, _, rfl⟩ := he <;> rintro _ _ ⟨⟩
  have hmapped : ∀ start span, e ≠ .mapped start span := by
    obtain ⟨_, rfl⟩ | ⟨_, _, rfl⟩ := he <;> rintro _ _ ⟨⟩
  rw [mem_elfloadOpen hinner]
  constructor
  · rintro ⟨f, block, ph, hf, htable, h | ⟨start, span, base, hmap, h | h⟩⟩
    · obtain ⟨_, _, rfl⟩ := kind_of_mem_touches h
      exact absurd rfl (hphdr _ _)
    · exact absurd h (hmapped _ _)
    · cases hf
      obtain h | ⟨mem, hread, h | ⟨r, hlink, h⟩⟩ := mem_loadImage.mp h
      · obtain ⟨_, _, rfl⟩ | ⟨_, _, rfl⟩ := kind_of_mem_readSegments h
        · exact absurd rfl (hphdr _ _)
        · exact absurd rfl (hwritten _ _)
      · obtain ⟨_, _, rfl⟩ | ⟨_, _, rfl⟩ := kind_of_mem_linkImage h
        · exact absurd rfl (hphdr _ _)
        · exact absurd rfl (hwritten _ _)
      · exact ⟨r.1, r.2, ⟨block, ph, start, span, base, mem, htable, hmap, hread, hlink⟩, h⟩
  · rintro ⟨d, lo, ⟨block, ph, start, span, base, mem, htable, hmap, hread, hlink⟩, h⟩
    exact ⟨file, block, ph, rfl, htable, .inr ⟨start, span, base, hmap, .inr <|
      mem_loadImage.mpr (.inr ⟨mem, hread, .inr ⟨(d, lo), hlink, h⟩⟩)⟩⟩

/-! ### The array of the caller -/

theorem stores_of_kind {es : List Event} (h : ∀ e ∈ es, ∀ i a, e ≠ .stored i a) :
    es.filterMap Event.store = [] := by
  refine List.filterMap_eq_nil_iff.mpr fun e he => ?_
  cases e with
  | stored i a => exact absurd rfl (h _ he i a)
  | _ => rfl

theorem stores_touches (fields : Phdr → List ℕ) (ph : List Phdr) :
    (touches fields ph).filterMap Event.store = [] := by
  refine stores_of_kind fun e he i a h => ?_
  obtain ⟨_, _, rfl⟩ := kind_of_mem_touches he
  cases h

/-- What is stored comes from what follows the mapping. -/
theorem stores_elfloadOpen {p : Process} {sur : Surroundings} {file : Bytes} {want : List Name}
    {block : ℕ} {ph : List Phdr} {start span base : UInt32} (htable : HasTable sur file block ph)
    (hmap : HasMapping p ph start span base) :
    (elfloadOpen p sur (some file) want).events.filterMap Event.store =
      (loadImage p sur file want ph base (sur.memory start span)).events.filterMap
        Event.store := by
  obtain ⟨eh, hstat, heh, rfl, hmalloc, hn, rfl⟩ := htable
  obtain ⟨hlo, rfl, hstart, rfl⟩ := hmap
  rw [elfloadOpen, events_emit_bind, List.filterMap_append, filterMap_releasing rfl, if_pos hstat,
    events_bind_of_ok (x := lift (readEhdr file)) heh, events_lift, List.nil_append, readTable,
    if_pos hmalloc, events_emit_bind, List.filterMap_append, filterMap_releasing rfl]
  dsimp only
  rw [if_neg hn, mapImage, events_emit_bind, List.filterMap_append, stores_touches]
  dsimp only
  rw [if_neg hlo, hstart]
  dsimp only
  rw [events_emit_bind, List.filterMap_append, filterMap_undoing rfl]
  rfl

/-- **What is stored** are the symbols that are wanted. -/
theorem outAfter_of_linked {p : Process} {sur : Surroundings} {file : Bytes} {want : List Name}
    {d : Dynamic} {lo lo' : Loaded} (h : Linked p sur file d lo)
    (hinit : (runInitializers p d lo).result = .ok lo') (out : ℕ → UInt32) :
    outAfter out (elfloadOpen p sur (some file) want).events =
      outAfter out (storeWanted p lo' 0 want).events := by
  obtain ⟨block, ph, start, span, base, mem, htable, hmap, hread, hlink⟩ := h
  have hsegments : (readSegments sur file base ph (sur.memory start span)).events.filterMap
      Event.store = [] := by
    refine stores_of_kind fun e he i a h => ?_
    subst h
    obtain ⟨_, _, h⟩ | ⟨_, _, h⟩ := kind_of_mem_readSegments he <;> cases h
  have hlinked : (linkImage p sur ph base mem).events.filterMap Event.store = [] := by
    refine stores_of_kind fun e he i a h => ?_
    subst h
    obtain ⟨_, _, h⟩ | ⟨_, _, h⟩ := kind_of_mem_linkImage he <;> cases h
  have hinitializers : (runInitializers p d lo).events.filterMap Event.store = [] := by
    refine stores_of_kind fun e he i a h => ?_
    subst h
    obtain ⟨_, h⟩ := kind_of_mem_runInitializers he
    cases h
  rw [outAfter, outAfter, stores_elfloadOpen htable hmap, loadImage, events_bind_of_ok hread,
    events_bind_of_ok hlink, events_bind_of_ok hinit, events_bind_pure, List.filterMap_append,
    List.filterMap_append, List.filterMap_append, hsegments, hlinked, hinitializers]
  rfl

/-! ### The initializers -/

/-- A turn that calls nothing changes nothing. -/
theorem runInitializer_of_skip {p : Process} {lo : Loaded} {fn f : UInt32}
    (h : lo.mem.read32 fn = .ok f) (hf : f = 0 ∨ f = 0xffffffff) :
    (runInitializer p lo fn).result = .ok lo := by
  rw [runInitializer, result_bind, result_lift, h, ok_bind, if_pos hf, result_pure]

theorem eq_of_skips {p : Process} {lo lo' : Loaded} {fns : List UInt32}
    (hskip : ∀ fn ∈ fns, ∀ f, lo.mem.read32 fn = .ok f → f = 0 ∨ f = 0xffffffff)
    (h : fns.foldlM (fun lo fn => (runInitializer p lo fn).result) lo = .ok lo') : lo' = lo := by
  induction fns with
  | nil =>
    cases h
    rfl
  | cons fn fns ih =>
    rw [List.foldlM_cons] at h
    rw [List.forall_mem_cons] at hskip
    cases hf : lo.mem.read32 fn with
    | error e =>
      rw [runInitializer, result_bind, result_lift, hf] at h
      cases h
    | ok f =>
      rw [runInitializer_of_skip hf (hskip.1 f hf), ok_bind] at h
      exact ih hskip.2 h

/-- When no initializer is called, although the loop comes to its end. -/
theorem uncalled_iff {p : Process} {d : Dynamic} {lo lo' : Loaded}
    (h : (runInitializers p d lo).result = .ok lo') :
    (∀ f, .called f ∉ (runInitializers p d lo).events) ↔ NoInitializer d lo := by
  rw [NoInitializer]
  rw [runInitializers, result_foldlM] at h
  rw [runInitializers]
  generalize initEntries lo.base d.init_array d.init_arraysz = fns at h ⊢
  constructor
  · intro hno
    induction fns with
    | nil => simp
    | cons fn fns ih =>
      rw [List.foldlM_cons] at h hno
      have hone : ∀ f, lo.mem.read32 fn = .ok f → f = 0 ∨ f = 0xffffffff := by
        intro f hf
        by_contra hne
        rw [not_or] at hne
        exact hno f (mem_bind.mpr (.inl (mem_runInitializer.mpr ⟨f, hf, hne.1, hne.2, rfl⟩)))
      obtain ⟨f, hf⟩ : ∃ f, lo.mem.read32 fn = .ok f := by
        obtain ⟨lo₁, h₁, -⟩ := bind_eq_ok.mp h
        rw [runInitializer, result_bind, result_lift] at h₁
        obtain ⟨f, hf, -⟩ := bind_eq_ok.mp h₁
        exact ⟨f, hf⟩
      have hskip : (runInitializer p lo fn).result = .ok lo :=
        runInitializer_of_skip hf (hone f hf)
      rw [hskip, ok_bind] at h
      refine List.forall_mem_cons.mpr ⟨hone, ih h fun f hmem => hno f ?_⟩
      exact mem_bind.mpr (.inr ⟨lo, hskip, hmem⟩)
  · intro hskip f hmem
    obtain ⟨before, fn, after, lo₁, rfl, hbefore, hfn⟩ := mem_foldlM.mp hmem
    obtain ⟨g, hg, hne₀, hne₁, -⟩ := mem_runInitializer.mp hfn
    -- the turns before this one have changed nothing
    obtain rfl := eq_of_skips (fun fn h => hskip fn (List.mem_append_left _ h)) hbefore
    exact (hskip fn (List.mem_append_right _ List.mem_cons_self) g hg).elim hne₀ hne₁

/-- The initializers do not make the loader fail. -/
theorem runInitializers_ne_failed (p : Process) (d : Dynamic) (lo : Loaded) :
    (runInitializers p d lo).result ≠ .error .failed := by
  rw [runInitializers, result_foldlM]
  refine foldlM_ne_error (fun lo fn => ?_) _ _
  have hread32 : lo.mem.read32 fn ≠ .error .failed :=
    bind_ne_error (read_ne_failed _ _ _) fun b => by rintro ⟨⟩
  rw [result_runInitializer]
  refine bind_ne_error hread32 fun f => ?_
  split
  · rintro ⟨⟩
  · cases p.call f lo.mem <;> rintro ⟨⟩

/-! ### The mapping of a load that does not fail -/

/-- What is loaded stays. -/
theorem unmapped_of_ok {p : Process} {sur : Surroundings} {file : Bytes} {want : List Name}
    {r : Loaded × List UInt32} (h : (elfloadOpen p sur (some file) want).result = .ok r)
    (start span : UInt32) : .unmapped start span ∉ (elfloadOpen p sur (some file) want).events := by
  obtain ⟨block, ph, start', span', base, htable, hmap⟩ := hasMapping_of_ok h
  rw [result_elfloadOpen htable hmap] at h
  obtain ⟨eh, hstat, heh, rfl, hmalloc, hn, rfl⟩ := htable
  obtain ⟨hlo, rfl, hstart, rfl⟩ := hmap
  intro hmem
  rw [elfloadOpen, events_emit_bind, List.mem_append, mem_releasing (by rintro ⟨⟩), if_pos hstat,
    mem_lift_bind] at hmem
  simp only [heh, Except.ok.injEq, exists_eq_left', List.mem_singleton, reduceCtorEq,
    false_or] at hmem
  rw [readTable, if_pos hmalloc, events_emit_bind, List.mem_append,
    mem_releasing (by rintro ⟨⟩)] at hmem
  dsimp only at hmem
  rw [if_neg hn, List.mem_singleton, mapImage, events_emit_bind, List.mem_append] at hmem
  dsimp only at hmem
  rw [if_neg hlo, hstart] at hmem
  dsimp only at hmem
  rw [events_emit_bind, List.mem_append, List.mem_singleton, events_undoing_of_ok h] at hmem
  obtain hmem | hmem | hmem | hmem := hmem
  · cases hmem
  · obtain ⟨_, _, hmem⟩ := kind_of_mem_touches hmem
    cases hmem
  · cases hmem
  · have hkind := kind_of_mem_loadImage hmem
    obtain (⟨_, _, hmem⟩ | ⟨_, _, hmem⟩) | ⟨_, hmem⟩ | ⟨_, _, hmem⟩ := hkind <;> cases hmem

/-- It is not given back. -/
theorem not_released_of_ok {p : Process} {sur : Surroundings} {file : Bytes} {want : List Name}
    {r : Loaded × List UInt32} (h : (elfloadOpen p sur (some file) want).result = .ok r)
    (out : ℕ → UInt32) : ¬ LeavesNoTrace out (elfloadOpen p sur (some file) want).events := by
  intro htrace
  obtain ⟨block, ph, start, span, base, htable, hmap⟩ := hasMapping_of_ok h
  have hmapped : .mapped start span ∈ (elfloadOpen p sur (some file) want).events :=
    mapped_mem.mpr ⟨file, block, ph, base, rfl, htable, hmap⟩
  have hacquire : .acquire (.mapping start span) ∈
      ledger (elfloadOpen p sur (some file) want).events :=
    List.mem_filterMap.mpr ⟨_, hmapped, rfl⟩
  obtain ⟨before, after, hes, -, -⟩ := htrace.released _ hacquire
  have hrelease : .release (.mapping start span) ∈
      ledger (elfloadOpen p sur (some file) want).events := by
    rw [hes]
    exact List.mem_append_right _ List.mem_cons_self
  obtain ⟨e, he, hl⟩ := List.mem_filterMap.mp hrelease
  cases e <;> cases hl
  exact unmapped_of_ok h _ _ he

/-! ### When a load that returns null leaves no trace -/

/-- A load that has failed leaves no trace when the array is as it was and nothing has been
called. -/
theorem leavesNoTrace_iff {p : Process} {sur : Surroundings} {file : Option Bytes}
    {want : List Name} (h : (elfloadOpen p sur file want).result = .error .failed)
    (out : ℕ → UInt32) :
    LeavesNoTrace out (elfloadOpen p sur file want).events ↔
      outAfter out (elfloadOpen p sur file want).events = out ∧
        ∀ fn, .called fn ∉ (elfloadOpen p sur file want).events :=
  ⟨fun htrace => ⟨htrace.out, htrace.uncalled⟩, fun ⟨hout, hcalled⟩ =>
    ⟨hout, fun r hr => (released_of_failed h r).releasedOnce hr, hcalled⟩⟩

/-- Nothing has been called when there was no initializer. -/
theorem uncalled_of_linked {p : Process} {sur : Surroundings} {file : Bytes} {want : List Name}
    {d : Dynamic} {lo lo' : Loaded} (h : Linked p sur file d lo)
    (hinit : (runInitializers p d lo).result = .ok lo') :
    (∀ fn, .called fn ∉ (elfloadOpen p sur (some file) want).events) ↔ NoInitializer d lo := by
  rw [← uncalled_iff hinit]
  refine forall_congr' fun fn => not_congr ?_
  rw [mem_of_linked (.inl ⟨fn, rfl⟩)]
  constructor
  · rintro ⟨d', lo₁, h', hmem | ⟨lo₂, -, hmem⟩⟩
    · obtain ⟨rfl, rfl⟩ := h.unique h'
      exact hmem
    · obtain ⟨_, _, hmem⟩ := kind_of_mem_storeWanted hmem
      cases hmem
  · exact fun hmem => ⟨d, lo, h, .inl hmem⟩

/-- When the initializers have been run. -/
theorem atomic_of_linked {p : Process} {sur : Surroundings} {file : Bytes} {want : List Name}
    {d : Dynamic} {lo lo' : Loaded} (h : Linked p sur file d lo)
    (hinit : (runInitializers p d lo).result = .ok lo') (out : ℕ → UInt32) :
    Atomic out (elfloadOpen p sur (some file) want) ↔
      (Missing p lo' want → NoInitializer d lo ∧ AlreadyStored p lo' want out) ∧
        ((∀ s ∈ want, Found p lo' s) → lo'.base ≠ 0) := by
  have hresult : (elfloadOpen p sur (some file) want).result = (do
      let out ← (storeWanted p lo' 0 want).result
      return (lo', out)) := by
    rw [result_of_linked h, hinit, ok_bind]
  cases hstore : (storeWanted p lo' 0 want).result with
  | ok as =>
    rw [hstore, ok_bind] at hresult
    have hfound : ∀ s ∈ want, Found p lo' s := storeWanted_ok_iff.mp ⟨as, hstore⟩
    have hmissing : ¬ Missing p lo' want := by
      rw [← storeWanted_failed_iff (i := 0), hstore]
      rintro ⟨⟩
    constructor
    · intro hatomic
      refine ⟨fun hm => absurd hm hmissing, fun _ hbase => ?_⟩
      exact not_released_of_ok hresult out (hatomic (.inr ⟨lo', as, hresult, hbase⟩))
    · rintro ⟨-, hbase⟩ (hnull | ⟨lo₁, as₁, hnull, hzero⟩)
      · rw [hresult] at hnull
        cases hnull
      · rw [hresult] at hnull
        cases hnull
        exact absurd hzero (hbase hfound)
  | error e =>
    rw [hstore, error_bind] at hresult
    have hfound : ¬ ∀ s ∈ want, Found p lo' s := by
      rw [← storeWanted_ok_iff (i := 0), hstore]
      rintro ⟨as, ⟨⟩⟩
    have hnull : ReturnsNull (elfloadOpen p sur (some file) want).result ↔ Missing p lo' want := by
      rw [← storeWanted_failed_iff (i := 0), hstore, hresult]
      constructor
      · rintro (h | ⟨lo₁, as, h, -⟩)
        · exact congrArg Except.error (Except.error.inj h)
        · cases h
      · exact fun h => .inl (congrArg Except.error (Except.error.inj h))
    have htrace : Missing p lo' want →
        (LeavesNoTrace out (elfloadOpen p sur (some file) want).events ↔
          NoInitializer d lo ∧ AlreadyStored p lo' want out) := by
      intro hmissing
      have he : (storeWanted p lo' 0 want).result = .error .failed :=
        storeWanted_failed_iff.mpr hmissing
      have hfailed : (elfloadOpen p sur (some file) want).result = .error .failed :=
        hresult.trans (congrArg Except.error (Except.error.inj (hstore.symm.trans he)))
      rw [leavesNoTrace_iff hfailed, outAfter_of_linked h hinit, storeAll_storeWanted,
        uncalled_of_linked h hinit, and_comm]
    rw [Atomic, hnull]
    constructor
    · exact fun hatomic => ⟨fun hm => (htrace hm).mp (hatomic hm), fun hf => absurd hf hfound⟩
    · exact fun hcond hm => (htrace hm).mpr (hcond.1 hm)

/-- When it does not come to the symbols that are wanted. -/
theorem atomic_of_not_linked {p : Process} {sur : Surroundings} {file : Bytes} {want : List Name}
    (h : ∀ d lo lo', Linked p sur file d lo → (runInitializers p d lo).result ≠ .ok lo')
    (out : ℕ → UInt32) : Atomic out (elfloadOpen p sur (some file) want) := by
  have hfailed : ReturnsNull (elfloadOpen p sur (some file) want).result →
      (elfloadOpen p sur (some file) want).result = .error .failed := by
    rintro (hnull | ⟨lo', as, hok, -⟩)
    · exact hnull
    · obtain ⟨d, lo, hlinked⟩ := linked_of_ok hok
      rw [result_of_linked hlinked] at hok
      obtain ⟨lo₁, hinit, -⟩ := bind_eq_ok.mp hok
      exact absurd hinit (h d lo lo₁ hlinked)
  intro hnull
  -- a library that has been linked does not fail in its initializers
  have hnone : ∀ d lo, ¬ Linked p sur file d lo := by
    intro d lo hlinked
    have hres := hfailed hnull
    rw [result_of_linked hlinked] at hres
    cases hinit : (runInitializers p d lo).result with
    | ok lo' => exact h d lo lo' hlinked hinit
    | error e =>
      rw [hinit, error_bind] at hres
      cases hres
      exact runInitializers_ne_failed p d lo hinit
  refine (leavesNoTrace_iff (hfailed hnull) out).mpr ⟨?_, fun fn hmem => ?_⟩
  · have hstores : (elfloadOpen p sur (some file) want).events.filterMap Event.store = [] := by
      refine stores_of_kind fun e he i a heq => ?_
      obtain ⟨d, lo, hlinked, -⟩ := (mem_of_linked (.inr ⟨i, a, heq⟩)).mp he
      exact hnone d lo hlinked
    rw [outAfter, hstores]
    rfl
  · obtain ⟨d, lo, hlinked, -⟩ := (mem_of_linked (.inl ⟨fn, rfl⟩)).mp hmem
    exact hnone d lo hlinked

/-- **When a load that returns null leaves no trace**: whatever the file, the process, the
surroundings, the symbols that are wanted and the array of the caller are. -/
theorem atomic_iff (p : Process) (sur : Surroundings) (file : Option Bytes) (want : List Name)
    (out : ℕ → UInt32) :
    Atomic out (elfloadOpen p sur file want) ↔
      ∀ f, file = some f → NothingToUndo p sur f want out := by
  cases file with
  | none => exact iff_of_true (fun _ => ⟨rfl, by rintro r ⟨⟩, by rintro fn ⟨⟩⟩) (by rintro f ⟨⟩)
  | some file =>
    by_cases hlinked : ∃ d lo lo', Linked p sur file d lo ∧
        (runInitializers p d lo).result = .ok lo'
    · obtain ⟨d, lo, lo', hlinked, hinit⟩ := hlinked
      rw [atomic_of_linked hlinked hinit]
      constructor
      · rintro hcond f hf d' lo₁ lo₂ h' hinit'
        cases hf
        obtain ⟨rfl, rfl⟩ := hlinked.unique h'
        rw [hinit, Except.ok.injEq] at hinit'
        subst hinit'
        exact hcond
      · exact fun hall => hall file rfl d lo lo' hlinked hinit
    · have hno : ∀ d lo lo', Linked p sur file d lo → (runInitializers p d lo).result ≠ .ok lo' :=
        fun d lo lo' h hinit => hlinked ⟨d, lo, lo', h, hinit⟩
      refine iff_of_true (atomic_of_not_linked hno out) ?_
      rintro f hf d lo lo' h hinit
      cases hf
      exact absurd hinit (hno d lo lo' h)

/-! ### A symbol that is missing -/

/-- A library with an initializer and no symbols: the header, a segment with everything, the table
of `PT_DYNAMIC`, the hash table, the first symbol, no strings, and the table of initializers. -/
def oneInitializer : Bytes :=
  [0x7f, 0x45, 0x4c, 0x46, 1, 1, 1, 0, 0, 0, 0, 0, 0, 0, 0, 0] ++
    ([3 + 40 * 65536, 1, 0, 52, 0, 0x05000000, 52 + 32 * 65536, 2, 0,
      1, 0, 0, 0, 204, 204, 7, 4096,
      2, 116, 116, 116, 48, 48, 6, 4,
      4, 164, 6, 180, 5, 196, 25, 200, 27, 4, 0, 0,
      1, 1, 0, 0,
      0, 0, 0, 0,
      0,
      0x40000101] : List ℕ).flatMap packU32

/-- The symbol is not there. The initializer has been called, and `out[0]` is null. -/
theorem atomic_not_always :
    ¬ ∀ (p : Process) (sur : Surroundings) (file : Option Bytes) (want : List Name)
      (out : ℕ → UInt32), Atomic out (elfloadOpen p sur file want) := by
  intro hall
  have hevents : (elfloadOpen forwarding everywhere (some oneInitializer)
      [name "x"]).events.contains (.called 0x40000101) = true := by
    decide +kernel
  have hresult : (elfloadOpen forwarding everywhere (some oneInitializer) [name "x"]).result.map
      (fun r => r.2) = .error .failed := by
    decide +kernel
  have hnull : ReturnsNull
      (elfloadOpen forwarding everywhere (some oneInitializer) [name "x"]).result := by
    cases hr : (elfloadOpen forwarding everywhere (some oneInitializer) [name "x"]).result with
    | ok r =>
      rw [hr] at hresult
      cases hresult
    | error e =>
      rw [hr] at hresult
      exact .inl (congrArg Except.error (Except.error.inj hresult))
  have htrace := hall forwarding everywhere (some oneInitializer) [name "x"] (fun _ => 1) hnull
  exact htrace.uncalled _ (List.contains_iff_mem.mp hevents)

end Loader

end Camera

end A1000

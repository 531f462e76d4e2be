import A1000.Lib.Run
import Mathlib.Data.List.AList

/-!
# The windows that are adopted

A window made by the vendor's composer answers the attributes of Android 5 only, and Android 8
creates no surface for it. `eglCreateWindowSurface` finds out by asking for
`NATIVE_WINDOW_IS_VALID`, and puts `shim_query` in place of the window's `query`; the pointer that
was there before goes into `g_adopted`, under the address of the window. `shim_query` looks it up
there and passes on to it what it cannot answer itself.

The table only grows, and the first entry under an address is the one that is found. Windows come
and go, and an address may be used again.

What the vendor's functions answer is up to an oracle, one answer for each call of a run. Left out:
the trace of the queries in the log, and what is handed through to the real function.

## Main definitions

* `Egl.shimQuery`, `Egl.eglCreateWindowSurface` — the two functions
* `Egl.Event.Correct` — no old window reaches the real function, and a query is passed on to the
  window's own function
* `Egl.Adoptable` — there is room in the table, and no other pointer under the address

## Main results

* `Egl.correct_eglCreateWindowSurface_iff` — one call
* `Egl.adoption_correct_iff` — every run
-/

namespace A1000

namespace Egl

open StepSystem

/-! ### Windows -/

/-- A value of `query`; the vendor's functions are told apart by `Q`. -/
inductive Query (Q : Type*)
  | vendor (q : Q)
  | shimQuery
  deriving DecidableEq, Repr

/-- A window, with the function it had immediately before it was adopted last. -/
structure Window (Q : Type*) where
  query : Query Q
  before : Option Q
  deriving DecidableEq, Repr

/-- What a function of the vendor answers: what it returns, and what it writes to `*value`, if it
writes at all. -/
structure Reply where
  rc : Int
  value : Option Int
  deriving DecidableEq, Repr

/-- The windows that are there, by address, the variables of the file, and the number of calls the
vendor's functions have had. -/
structure State (Q : Type*) where
  windows : AList fun _ : ℕ => Window Q
  gAdopted : List (ℕ × Q)
  /-- Whether `real` is resolved. -/
  real : Bool
  calls : ℕ

/-- Nothing has happened yet. -/
def start (Q : Type*) : State Q := ⟨∅, [], false, 0⟩

/-- What is of interest about a run. -/
inductive Event (Q : Type*)
  /-- The real `eglCreateWindowSurface` is called: the `query` of the window, and whether the window
  is one of the old ones. -/
  | real (query : Option (Query Q)) (legacy : Bool)
  /-- `shim_query` calls `q`; the window had `own` before it was adopted last. -/
  | delegated (q : Q) (own : Option Q)
  deriving DecidableEq, Repr

/-- What is promised of an event. -/
def Event.Correct {Q : Type*} : Event Q → Prop
  | .real query legacy => legacy = true → query = some .shimQuery
  | .delegated q own => own = some q

variable {Q : Type*} (answer : ℕ → Q → ℕ → Int → Reply)

/-! ### The functions -/

def shimMaxWindows : ℕ := 4
def einval : Int := 22

def nativeWindowWidth : Int := 0
def nativeWindowHeight : Int := 1
def nativeWindowDefaultWidth : Int := 6
def nativeWindowDefaultHeight : Int := 7
def nativeWindowDefaultDataspace : Int := 12
def nativeWindowBufferAge : Int := 13
def nativeWindowLayerCount : Int := 16
def nativeWindowIsValid : Int := 17

/-- The attributes that `shim_query` answers itself. -/
def fixedValue (what : Int) : Option Int :=
  if what = nativeWindowIsValid then some 1
  else if what = nativeWindowLayerCount then some 1
  else if what = nativeWindowBufferAge then some 0
  else if what = nativeWindowDefaultDataspace then some 0
  else none

/-- The attribute that is asked for instead. -/
def sizeAttribute (what : Int) : Option Int :=
  if what = nativeWindowWidth then some nativeWindowDefaultWidth
  else if what = nativeWindowHeight then some nativeWindowDefaultHeight
  else none

/-- A call of the vendor's function `q` on the window at `a`: what it returns, and `*value`. -/
def ask (q : Q) (a : ℕ) (what value : Int) (s : State Q) : State Q × Int × Int :=
  let r := answer s.calls q a what
  ({ s with calls := s.calls + 1 }, r.rc, r.value.getD value)

/-- The function that the window at `a` had before it was adopted last. -/
def State.own (s : State Q) (a : ℕ) : Option Q := (s.windows.lookup a).bind Window.before

/-- A call made by `shim_query`. -/
def delegate (q : Q) (a : ℕ) (what value : Int) (s : State Q) :
    State Q × (Int × Int) × List (Event Q) :=
  let r := ask answer q a what value s
  (r.1, r.2, [.delegated q (s.own a)])

/-- The end of `shim_query`: an answer is passed on, and `*value` is 0 if there is none. -/
def passOn (q : Q) (a : ℕ) (what value : Int) (s : State Q) :
    State Q × (Int × Int) × List (Event Q) :=
  let r := delegate answer q a what value s
  (r.1, (r.2.1.1, if r.2.1.1 ≠ 0 then 0 else r.2.1.2), r.2.2)

/-- `shim_query`: what it returns and `*value`, and the calls it makes. -/
def shimQuery (a : ℕ) (what value : Int) (s : State Q) :
    State Q × (Int × Int) × List (Event Q) :=
  match fixedValue what with
  | some v => (s, (0, v), [])
  | none =>
    match s.gAdopted.lookup a with
    | none => (s, (-einval, 0), [])
    | some q =>
      match sizeAttribute what with
      | none => passOn answer q a what value s
      | some size =>
        let r := delegate answer q a size value s
        if r.2.1.1 = 0 then r
        else
          let r' := passOn answer q a what r.2.1.2 r.1
          (r'.1, r'.2.1, r.2.2 ++ r'.2.2)

/-- The window at `a` is adopted. -/
def adopt (a : ℕ) (q : Q) (s : State Q) : State Q :=
  { s with
    gAdopted := s.gAdopted ++ [(a, q)]
    windows := s.windows.insert a ⟨.shimQuery, some q⟩ }

/-- `eglCreateWindowSurface` on the window `w` at `a`, up to the call of the real function. -/
def prepare (a : ℕ) (w : Window Q) (s : State Q) : State Q × List (Event Q) :=
  match w.query with
  | .shimQuery => (s, [.real (some .shimQuery) true])
  | .vendor q =>
    let valid := ask answer q a nativeWindowIsValid 0 s
    if valid.2.2 ≠ 0 then (valid.1, [.real (some (.vendor q)) false])
    else if s.gAdopted.length < shimMaxWindows then
      let r := shimQuery answer a nativeWindowWidth (-1) (adopt a q valid.1)
      let r' := shimQuery answer a nativeWindowHeight (-1) r.1
      (r'.1, r.2.2 ++ r'.2.2 ++ [.real (some .shimQuery) true])
    else (valid.1, [.real (some (.vendor q)) true])

/-- `eglCreateWindowSurface` on the window at `win`, if that is not null; `found` says whether
`dlsym` or `libEGL.so` has the real function if it comes to that. -/
def eglCreateWindowSurface (win : Option (ℕ × Window Q)) (found : Bool) (s : State Q) :
    State Q × List (Event Q) :=
  if s.real ∨ found then
    match win with
    | none => ({ s with real := true }, [.real none false])
    | some (a, w) => prepare answer a w { s with real := true }
  else (s, [])

/-! ### Runs -/

/-- What can happen. -/
inductive Call (Q : Type*)
  /-- A window is created at an address where none is. -/
  | create (a : ℕ) (q : Q)
  | destroy (a : ℕ)
  | eglCreateWindowSurface (win : Option ℕ) (found : Bool)
  /-- `query` of the window at `a` is called. -/
  | query (a : ℕ) (what value : Int)
  deriving DecidableEq, Repr

/-- One step; only a window that is there can be passed to a function or destroyed. -/
def step (s : State Q) : Call Q → Option (State Q × List (Event Q))
  | .create a q =>
    if a ∈ s.windows then none
    else some ({ s with windows := s.windows.insert a ⟨.vendor q, none⟩ }, [])
  | .destroy a =>
    if a ∈ s.windows then some ({ s with windows := s.windows.erase a }, []) else none
  | .eglCreateWindowSurface none found => some (eglCreateWindowSurface answer none found s)
  | .eglCreateWindowSurface (some a) found =>
    (s.windows.lookup a).map fun w => eglCreateWindowSurface answer (some (a, w)) found s
  | .query a what value =>
    (s.windows.lookup a).map fun w =>
      match w.query with
      | .vendor q => ((ask answer q a what value s).1, [])
      | .shimQuery =>
        let r := shimQuery answer a what value s
        (r.1, r.2.2)

/-! ### One query -/

/-- Only the number of calls differs. -/
structure SameTables (s t : State Q) : Prop where
  windows : t.windows = s.windows
  gAdopted : t.gAdopted = s.gAdopted

theorem SameTables.trans {s t u : State Q} (h : SameTables s t) (h' : SameTables t u) :
    SameTables s u :=
  ⟨h'.windows.trans h.windows, h'.gAdopted.trans h.gAdopted⟩

variable {answer}

theorem sameTables_ask (q : Q) (a : ℕ) (what value : Int) (s : State Q) :
    SameTables s (ask answer q a what value s).1 :=
  ⟨rfl, rfl⟩

theorem sameTables_shimQuery (a : ℕ) (what value : Int) (s : State Q) :
    SameTables s (shimQuery answer a what value s).1 := by
  rw [shimQuery]
  split
  · exact ⟨rfl, rfl⟩
  · split
    · exact ⟨rfl, rfl⟩
    · split
      · exact ⟨rfl, rfl⟩
      · simp only
        split
        · exact ⟨rfl, rfl⟩
        · exact ⟨rfl, rfl⟩

/-- `shim_query` calls nothing but the pointer it finds in the table. -/
theorem shimQuery_events {a : ℕ} {what value : Int} {s : State Q} {e : Event Q}
    (he : e ∈ (shimQuery answer a what value s).2.2) :
    ∃ q, s.gAdopted.lookup a = some q ∧ e = .delegated q (s.own a) := by
  rw [shimQuery] at he
  split at he
  · cases he
  · split at he
    · cases he
    · rename_i q hq
      refine ⟨q, hq, ?_⟩
      split at he
      · simpa [passOn, delegate] using he
      · simp only at he
        split at he
        · simpa [delegate] using he
        · simpa [passOn, delegate, ask, State.own] using he

/-- A query for a size is always passed on. -/
theorem delegated_mem_shimQuery {a : ℕ} {what size value : Int} {s : State Q} {q : Q}
    (hfixed : fixedValue what = none) (hsize : sizeAttribute what = some size)
    (hq : s.gAdopted.lookup a = some q) :
    .delegated q (s.own a) ∈ (shimQuery answer a what value s).2.2 := by
  simp only [shimQuery, hfixed, hq, hsize]
  split
  · exact List.mem_singleton_self _
  · exact List.mem_append_left _ (List.mem_singleton_self _)

/-- **One query of an adopted window.** Everything `shim_query` calls is right if the pointer it
finds in the table is. -/
theorem correct_shimQuery {a : ℕ} {what value : Int} {s : State Q}
    (h : ∀ q, s.gAdopted.lookup a = some q → s.own a = some q) :
    ∀ e ∈ (shimQuery answer a what value s).2.2, e.Correct := by
  intro e he
  obtain ⟨q, hq, rfl⟩ := shimQuery_events he
  exact h q hq

/-! ### One call of `eglCreateWindowSurface` -/

/-- The window at `a`, whose function is `q`, can be adopted: there is room in the table, and no
other pointer is found under its address. -/
def Adoptable (a : ℕ) (q : Q) (s : State Q) : Prop :=
  s.gAdopted.length < shimMaxWindows ∧ ∀ q', s.gAdopted.lookup a = some q' → q' = q

theorem lookup_adopt (a : ℕ) (q : Q) (s : State Q) :
    (adopt a q s).gAdopted.lookup a = some ((s.gAdopted.lookup a).getD q) := by
  rw [adopt, List.lookup_append]
  cases s.gAdopted.lookup a <;> simp

theorem lookup_adopt_ne {a b : ℕ} (h : b ≠ a) (q : Q) (s : State Q) :
    (adopt a q s).gAdopted.lookup b = s.gAdopted.lookup b := by
  have hb : (b == a) = false := beq_false_of_ne h
  rw [adopt, List.lookup_append]
  simp [List.lookup_cons, hb]

theorem own_adopt (a : ℕ) (q : Q) (s : State Q) : (adopt a q s).own a = some q := by
  simp [State.own, adopt]

/-- The window at `a` has a query function of its own, and this does not know
`NATIVE_WINDOW_IS_VALID`. -/
def Unadopted (answer : ℕ → Q → ℕ → Int → Reply) (a : ℕ) (w : Window Q) (q : Q)
    (s : State Q) : Prop :=
  w.query = .vendor q ∧ (ask answer q a nativeWindowIsValid 0 s).2.2 = 0

/-- The call on a window that is to be adopted and can be. -/
theorem prepare_adoptable {a : ℕ} {w : Window Q} {q : Q} {s : State Q}
    (hw : Unadopted answer a w q s) (hroom : s.gAdopted.length < shimMaxWindows) :
    ∃ es es',
      (prepare answer a w s).2 = es ++ es' ++ [.real (some .shimQuery) true] ∧
      SameTables (adopt a q s) (prepare answer a w s).1 ∧
      .delegated ((s.gAdopted.lookup a).getD q) (some q) ∈ es ∧
      ∀ e ∈ es ++ es', e = .delegated ((s.gAdopted.lookup a).getD q) (some q) := by
  set s₁ : State Q := adopt a q (ask answer q a nativeWindowIsValid 0 s).1 with hs₁
  set r := shimQuery answer a nativeWindowWidth (-1) s₁ with hr
  set r' := shimQuery answer a nativeWindowHeight (-1) r.1 with hr'
  have hprepare : prepare answer a w s =
      (r'.1, r.2.2 ++ r'.2.2 ++ [.real (some .shimQuery) true]) := by
    simp [prepare, hw.1, hw.2, hroom, ← hs₁, ← hr, ← hr']
  have hfound : s₁.gAdopted.lookup a = some ((s.gAdopted.lookup a).getD q) :=
    lookup_adopt a q _
  have hown : s₁.own a = some q := own_adopt a q _
  have hsame : SameTables s₁ r.1 := sameTables_shimQuery a _ _ s₁
  have hboth : SameTables s₁ r'.1 := hsame.trans (sameTables_shimQuery a _ _ r.1)
  have hfound' : r.1.gAdopted.lookup a = s₁.gAdopted.lookup a := by rw [hsame.gAdopted]
  have hown' : r.1.own a = s₁.own a := by rw [State.own, State.own, hsame.windows]
  rw [hprepare]
  refine ⟨r.2.2, r'.2.2, rfl, ⟨hboth.windows, hboth.gAdopted⟩, ?_, ?_⟩
  · rw [← hown]
    exact delegated_mem_shimQuery rfl rfl hfound
  · intro e he
    rcases List.mem_append.mp he with he | he
    · obtain ⟨q', hq', rfl⟩ := shimQuery_events he
      rw [hfound, Option.some.injEq] at hq'
      rw [hq', hown]
    · obtain ⟨q', hq', rfl⟩ := shimQuery_events he
      rw [hfound', hfound, Option.some.injEq] at hq'
      rw [hq', hown', hown]

/-- **One call.** -/
theorem correct_prepare_iff {a : ℕ} {w : Window Q} {s : State Q} :
    (∀ e ∈ (prepare answer a w s).2, e.Correct) ↔
      ∀ q, Unadopted answer a w q s → Adoptable a q s := by
  by_cases hun : ∃ q, Unadopted answer a w q s
  · obtain ⟨q, hw⟩ := hun
    have hone : (∀ q', Unadopted answer a w q' s → Adoptable a q' s) ↔ Adoptable a q s := by
      constructor
      · exact fun h => h q hw
      · intro h q' hw'
        obtain rfl : q' = q := by simpa [hw.1] using hw'.1.symm
        exact h
    rw [hone]
    by_cases hroom : s.gAdopted.length < shimMaxWindows
    · obtain ⟨es, es', hes, -, hmem, hall⟩ := prepare_adoptable hw hroom
      rw [hes]
      constructor
      · intro h
        refine ⟨hroom, fun q' hq' => ?_⟩
        have hc : some q = some ((s.gAdopted.lookup a).getD q) :=
          h _ (List.mem_append_left _ (List.mem_append_left _ hmem))
        rw [hq'] at hc
        exact (Option.some.inj hc).symm
      · intro h e he
        rcases List.mem_append.mp he with he | he
        · rw [hall e he]
          cases hq' : s.gAdopted.lookup a with
          | none => rfl
          | some q' => rw [h.2 q' hq']; rfl
        · rw [List.mem_singleton.mp he]
          exact fun _ => rfl
    · have hes : (prepare answer a w s).2 = [.real (some (.vendor q)) true] := by
        simp [prepare, hw.1, hw.2, hroom]
      simp [hes, Event.Correct, Adoptable, hroom]
  · refine iff_of_true ?_ fun q hw => absurd ⟨q, hw⟩ hun
    cases hq : w.query with
    | shimQuery => simp [prepare, hq, Event.Correct]
    | vendor q =>
      have hvalid : (ask answer q a nativeWindowIsValid 0 s).2.2 ≠ 0 :=
        fun h => hun ⟨q, hq, h⟩
      simp [prepare, hq, hvalid, Event.Correct]

/-! ### Every run -/

/-- A window that has `shim_query` is found in the table, with the function it had before. -/
def Kept (s : State Q) : Prop :=
  ∀ a w, s.windows.lookup a = some w → w.query = .shimQuery →
    ∃ q, w.before = some q ∧ s.gAdopted.lookup a = some q

theorem Kept.of_same {s t : State Q} (h : Kept s) (hst : SameTables s t) : Kept t := by
  intro a w hw hq
  rw [hst.windows] at hw
  rw [hst.gAdopted]
  exact h a w hw hq

/-- A new window has a function of its own. -/
theorem Kept.insert {s : State Q} (h : Kept s) (a : ℕ) (q : Q) (b : Option Q) :
    Kept { s with windows := s.windows.insert a ⟨.vendor q, b⟩ } := by
  intro c w hw hq
  by_cases hc : c = a
  · subst hc
    rw [AList.lookup_insert, Option.some.injEq] at hw
    subst hw
    cases hq
  · rw [AList.lookup_insert_ne hc] at hw
    exact h c w hw hq

theorem Kept.erase {s : State Q} (h : Kept s) (a : ℕ) :
    Kept { s with windows := s.windows.erase a } := by
  intro c w hw hq
  by_cases hc : c = a
  · subst hc
    rw [AList.lookup_erase] at hw
    cases hw
  · rw [AList.lookup_erase_ne hc] at hw
    exact h c w hw hq

/-- Adopting leaves the entries of the other windows alone, since they are found first. -/
theorem Kept.adopt {s : State Q} (h : Kept s) {a : ℕ} {q : Q} (hq : Adoptable a q s) :
    Kept (Egl.adopt a q s) := by
  intro c w hw hshim
  by_cases hc : c = a
  · subst hc
    have hwin : w = ⟨.shimQuery, some q⟩ := by
      simpa [Egl.adopt] using hw.symm
    refine ⟨q, by rw [hwin], ?_⟩
    rw [lookup_adopt]
    cases hq' : s.gAdopted.lookup c with
    | none => rfl
    | some q' => rw [hq.2 q' hq']; rfl
  · rw [lookup_adopt_ne hc]
    refine h c w ?_ hshim
    rwa [Egl.adopt, AList.lookup_insert_ne hc] at hw

theorem Kept.prepare {s : State Q} (h : Kept s) {a : ℕ} {w : Window Q}
    (hall : ∀ q, Unadopted answer a w q s → Adoptable a q s) :
    Kept (Egl.prepare answer a w s).1 := by
  by_cases hun : ∃ q, Unadopted answer a w q s
  · obtain ⟨q, hw⟩ := hun
    obtain ⟨-, -, -, hsame, -⟩ := prepare_adoptable hw (hall q hw).1
    exact (h.adopt (hall q hw)).of_same hsame
  · cases hq : w.query with
    | shimQuery =>
      simp only [Egl.prepare, hq]
      exact h
    | vendor q =>
      have hvalid : (ask answer q a nativeWindowIsValid 0 s).2.2 ≠ 0 :=
        fun hv => hun ⟨q, hq, hv⟩
      simp only [Egl.prepare, hq, hvalid, ne_eq, not_false_eq_true, ↓reduceIte]
      exact h.of_same (sameTables_ask q a _ _ s)

/-- **When a window is adopted as it should be.** A call of `eglCreateWindowSurface` that comes to
an old window which is not adopted yet finds room in the table, and no other pointer under the
address of the window. -/
def AdoptsWell (answer : ℕ → Q → ℕ → Int → Reply) (s : State Q) : Call Q → Prop
  | .eglCreateWindowSurface (some a) found =>
    s.real ∨ found → ∀ w q, s.windows.lookup a = some w → Unadopted answer a w q s →
      Adoptable a q s
  | _ => True

/-- **One step**, from a state in which the adopted windows are found in the table. -/
theorem correct_step {s t : State Q} {i : Call Q} {es : List (Event Q)} (h : Kept s)
    (hstep : step answer s i = some (t, es)) :
    ((∀ e ∈ es, e.Correct) ↔ AdoptsWell answer s i) ∧ (AdoptsWell answer s i → Kept t) := by
  cases i with
  | create a q =>
    simp only [step, Option.ite_none_left_eq_some, Option.some.injEq, Prod.mk.injEq] at hstep
    obtain ⟨-, rfl, rfl⟩ := hstep
    exact ⟨by simp [AdoptsWell], fun _ => h.insert a q none⟩
  | destroy a =>
    simp only [step, Option.ite_none_right_eq_some, Option.some.injEq, Prod.mk.injEq] at hstep
    obtain ⟨-, rfl, rfl⟩ := hstep
    exact ⟨by simp [AdoptsWell], fun _ => h.erase a⟩
  | eglCreateWindowSurface win found =>
    cases win with
    | none =>
      simp only [step, eglCreateWindowSurface, Option.some.injEq] at hstep
      split at hstep
      · cases hstep
        exact ⟨by simp [AdoptsWell, Event.Correct], fun _ => h⟩
      · cases hstep
        exact ⟨by simp [AdoptsWell], fun _ => h⟩
    | some a =>
      obtain ⟨w, hw, hcall⟩ := Option.map_eq_some_iff.mp hstep
      rw [eglCreateWindowSurface] at hcall
      by_cases hreal : s.real ∨ found
      · rw [if_pos hreal] at hcall
        have hwell : AdoptsWell answer s (.eglCreateWindowSurface (some a) found) ↔
            ∀ q, Unadopted answer a w q s → Adoptable a q s := by
          constructor
          · exact fun hall q => hall hreal w q hw
          · intro hall _ w' q hw'
            rw [hw, Option.some.injEq] at hw'
            exact hw' ▸ hall q
        rw [hwell, show t = _ from (congrArg Prod.fst hcall).symm,
          show es = _ from (congrArg Prod.snd hcall).symm]
        exact ⟨correct_prepare_iff, Kept.prepare (s := { s with real := true }) h⟩
      · rw [if_neg hreal] at hcall
        cases hcall
        exact ⟨by simp [AdoptsWell, hreal], fun _ => h⟩
  | query a what value =>
    obtain ⟨w, hw, hcall⟩ := Option.map_eq_some_iff.mp hstep
    split at hcall
    · cases hcall
      exact ⟨by simp [AdoptsWell], fun _ => h.of_same (sameTables_ask _ a what value s)⟩
    · rename_i hq
      cases hcall
      obtain ⟨q, hbefore, hfound⟩ := h a w hw hq
      have hright : ∀ q', s.gAdopted.lookup a = some q' → s.own a = some q' := by
        intro q' hq'
        rw [State.own, hw, Option.bind_some, hbefore, ← hfound, hq']
      exact ⟨iff_of_true (correct_shimQuery hright) trivial,
        fun _ => h.of_same (sameTables_shimQuery a what value s)⟩

theorem kept_of_run {tr : List (Call Q × List (Event Q))} {s : State Q}
    (h : RunWhere (step answer) (AdoptsWell answer) (start Q) tr s) : Kept s :=
  h.invariant (P := fun _ s => Kept s) (fun a w hw => by cases hw)
    fun hk hi hstep => (correct_step hk hstep).2 hi

/-- **Adoption.** Whatever windows come and go, at whatever addresses, and whatever the vendor's
functions answer: no old window reaches the real function without `shim_query`, and every query is
passed on to the function the window had before it was adopted last, exactly when every old window
that comes to `eglCreateWindowSurface` finds room in the table and no other pointer under its
address. -/
theorem adoption_correct_iff {tr : List (Call Q × List (Event Q))} {s : State Q}
    (h : Run (step answer) (start Q) tr s) :
    Always (fun _ _ es => ∀ e ∈ es, e.Correct) tr ↔
      RunWhere (step answer) (AdoptsWell answer) (start Q) tr s :=
  h.always_iff_of_good fun hrun hstep => (correct_step (kept_of_run hrun) hstep).1

/-- Nothing of what is asked for is known. -/
def rejects : ℕ → ℕ → ℕ → Int → Reply := fun _ _ _ _ => ⟨-22, none⟩

/-- A window is adopted and asked for its width; it goes, and at its address comes another one with
the same function. -/
theorem adoption_correct_again :
    ∃ tr s, Run (step rejects) (start ℕ) tr s ∧
      tr.map Prod.fst = [.create 4096 1, .eglCreateWindowSurface (some 4096) true,
        .query 4096 0 7, .destroy 4096, .create 4096 1,
        .eglCreateWindowSurface (some 4096) true] ∧
      (Always (fun _ _ es => ∀ e ∈ es, e.Correct) tr ↔
        RunWhere (step rejects) (AdoptsWell rejects) (start ℕ) tr s) := by
  have hrun : Run (step rejects) (start ℕ) _ _ := run_of_exec <|
    show exec (step rejects) (fun _ _ => True) _
      [.create 4096 1, .eglCreateWindowSurface (some 4096) true, .query 4096 0 7, .destroy 4096,
        .create 4096 1, .eglCreateWindowSurface (some 4096) true] = some (_, _) from rfl
  exact ⟨_, _, hrun, rfl, adoption_correct_iff hrun⟩

/-- A window goes, and at its address comes another one with a function of its own: its queries are
passed on to the function of the first. There is never more than one window. -/
theorem adoption_not_always_correct :
    ¬ ∀ (answer : ℕ → ℕ → ℕ → Int → Reply) (tr : List (Call ℕ × List (Event ℕ))) (s : State ℕ),
      RunWhere (step answer) (fun s _ => s.windows.entries.length ≤ 4) (start ℕ) tr s →
        s.windows.entries.length ≤ 4 → Always (fun _ _ es => ∀ e ∈ es, e.Correct) tr := by
  intro hall
  have hrun : RunWhere (step rejects) (fun s _ => s.windows.entries.length ≤ 4) (start ℕ) _ _ :=
    run_of_exec <|
      show exec (step rejects) (fun s _ => s.windows.entries.length ≤ 4) _
        [.create 4096 1, .eglCreateWindowSurface (some 4096) true, .destroy 4096, .create 4096 2,
          .eglCreateWindowSurface (some 4096) true] = some (_, _) from rfl
  have hlast := hall _ _ _ hrun (by decide) [_, _, _, _] _ _ [] rfl
  have hfirst := hlast (.delegated 1 (some 2)) (by decide)
  revert hfirst
  rw [Event.Correct]
  decide

end Egl

end A1000

import A1000.Lib.Stdio
import A1000.Sepolicy.Inject

/-!
# Which rules of a file are lost

`main` takes the file of rules in pieces that fit its buffer, cuts each piece at the first `#`,
scans four words from it and passes over it in silence if there are fewer. `add_allow` takes the
last of the words apart at its commas. A line has the documented form if it says
`source target class perm[,perm...]` and nothing else.

Lines may be of any length. What decides about a line are its pieces: a line is heard if one of them
is scanned to just what the line says, or to a rule that does not resolve.

## Main definitions

* `Sepolicy.addFile` — the loop of `main`, from the text of the file on
* `Sepolicy.Line.stated?` — what a line of the documented form says
* `Sepolicy.NoneLost` — every line that is not blank is applied as a whole, or counted
* `Sepolicy.Line.Heard` — the condition on a line

## Main results

* `Sepolicy.noneLost_iff` — none is lost exactly if all lines are heard
* `Sepolicy.heard_of_fits`, `Sepolicy.not_heard_of_few` — short lines whose words fit the buffers
-/

namespace A1000

namespace Sepolicy

open Stdio (newline words)

/-! ### The file -/

/-- A line, without the newline that ends it. -/
structure Line where
  bytes : Bytes
  no_newline : newline ∉ bytes

def fileOf (lines : List Line) : Bytes := (lines.map Line.bytes).flatMap (· ++ [newline])

/-- The loop of `main` over a file. -/
def addFile (db : Policydb) (file : Bytes) (t : Avtab) : Loop :=
  ruleLoop db (Stdio.chunks 512 file) t

/-- What `main` returns. -/
def exitStatus (l : Loop) : ℕ := if l.bad ≠ 0 then 1 else 0

namespace Line

/-- What `fgets` makes of a line. -/
def pieces (l : Line) : List Bytes := Stdio.chunks 512 (l.bytes ++ [newline])

/-- The line without its comment. -/
def cut (l : Line) : Bytes := l.bytes.takeWhile (· ≠ 35)

end Line

/-! ### What a line says -/

/-- A rule as the documentation of the file has it. -/
@[ext]
structure Stated where
  source : Bytes
  target : Bytes
  cls : Bytes
  perms : List Bytes
  deriving DecidableEq

/-- What a scanned rule asks for. -/
def Rule.stated (r : Rule) : Stated := ⟨r.source, r.target, r.cls, tokens r.perms⟩

/-- **The documented form**: four words, and the last of them is names with commas between. -/
def Line.stated? (l : Line) : Option Stated :=
  match words l.cut with
  | [s, t, c, p] => if [] ∈ p.splitOn 44 then none else some ⟨s, t, c, p.splitOn 44⟩
  | _ => none

/-- There is nothing but blanks in front of the comment. -/
def Line.Blank (l : Line) : Prop := words l.cut = []

/-- What the line says has been applied with all its permissions, and the table `t` has them. -/
def Line.Applied (db : Policydb) (t : Avtab) (l : Line) (w : Stated) : Prop :=
  ∃ p ∈ l.pieces, ∃ r, scanRule p = some r ∧ r.stated = w ∧
    ∃ k ps, Resolves db r k ps ∧ ∀ q ∈ ps, t.Allows k q

/-- **No line is lost silently.** A line of the documented form is applied with all its permissions
or counted; any other line that is not blank is counted, and nothing of it is applied. -/
def NoneLost (db : Policydb) (t : Avtab) (lines : List Line) : Prop :=
  ∀ pre l post, lines = pre ++ l :: post →
    let before := addFile db (fileOf pre) t
    let after := addFile db (fileOf (pre ++ [l])) t
    let done := addFile db (fileOf lines) t
    let Counted := before.bad < after.bad ∧ exitStatus done = 1
    (∀ w, l.stated? = some w → l.Applied db done.avtab w ∨ Counted) ∧
      (l.stated? = none → ¬ l.Blank → Counted ∧ after.added = before.added)

/-! ### The condition -/

/-- A piece is scanned to a rule that does not resolve. -/
def Refuses (db : Policydb) (p : Bytes) : Prop :=
  ∃ r, scanRule p = some r ∧ ∀ k ps, ¬ Resolves db r k ps

/-- **The line is heard.** Of a line of the documented form one piece is scanned to just what it
says, or one to a rule that does not resolve; of any other line that is not blank some piece is
scanned to a rule, and no such rule resolves. -/
def Line.Heard (db : Policydb) (l : Line) : Prop :=
  (∀ w, l.stated? = some w →
    (∃ p ∈ l.pieces, ∃ r, scanRule p = some r ∧ r.stated = w) ∨ ∃ p ∈ l.pieces, Refuses db p) ∧
  (l.stated? = none → ¬ l.Blank → (∃ p ∈ l.pieces, Refuses db p) ∧
    ∀ p ∈ l.pieces, ∀ r, scanRule p = some r → ∀ k ps, ¬ Resolves db r k ps)

/-! ### One piece -/

/-- The permissions of a table to which the bits of a rule have been joined. -/
theorem allows_join {t : Avtab} {k k' : Key} {b : BitVec 32} {q : PermDatum} :
    Avtab.Allows (Accum.join (· ||| ·) t (k, b)) k' q ↔
      t.Allows k' q ∨ k = k' ∧ b.getLsbD (q.value - 1) = true := by
  have h := @Accum.holds_joins_iff Key (BitVec 32) _ (· ||| ·)
    (fun b => b.getLsbD (q.value - 1) = true) (by simp) t [(k, b)] k'
  simpa [Avtab.Allows] using h

/-- **What a piece can do**: nothing, or add what it says, or be counted. -/
theorem line_cases (db : Policydb) (x : Loop) (p : Bytes) :
    (scanRule p = none ∧ Loop.line db x p = x) ∨
    (∃ r k ps, scanRule p = some r ∧ Resolves db r k ps ∧
      (Loop.line db x p).added = x.added + 1 ∧ (Loop.line db x p).bad = x.bad ∧
      ∀ k' q, (Loop.line db x p).avtab.Allows k' q ↔ x.avtab.Allows k' q ∨ k = k' ∧ q ∈ ps) ∨
    (Refuses db p ∧ Loop.line db x p = ⟨x.added, x.bad + 1, x.avtab⟩) := by
  cases hscan : scanRule p with
  | none => exact .inl ⟨rfl, by rw [Loop.line, hscan]⟩
  | some r =>
    cases hu : update? db r with
    | none =>
      refine .inr (.inr ⟨⟨r, hscan, fun k ps hps => ?_⟩, ?_⟩)
      · obtain ⟨b, hb, -⟩ := update?_of_resolves hps
        rw [hu] at hb
        cases hb
      · simp [Loop.line, hscan, addAllow_eq, hu]
    | some u =>
      obtain ⟨ps, hps⟩ := resolves_of_update? hu
      obtain ⟨b, hb, hq⟩ := update?_of_resolves hps
      have hline : Loop.line db x p =
          ⟨x.added + 1, x.bad, Accum.join (· ||| ·) x.avtab (u.1, b)⟩ := by
        simp [Loop.line, hscan, addAllow_eq, hb]
      refine .inr (.inl ⟨r, u.1, ps, rfl, hps, by rw [hline], by rw [hline], fun k' q => ?_⟩)
      rw [hline, allows_join, hq]

/-! ### Many pieces -/

/-- Nothing that was allowed is lost, and no count goes down. -/
theorem foldl_line_le (db : Policydb) (ps : List Bytes) (x : Loop) :
    x.bad ≤ (ps.foldl (Loop.line db) x).bad ∧ x.added ≤ (ps.foldl (Loop.line db) x).added ∧
      ∀ k q, x.avtab.Allows k q → (ps.foldl (Loop.line db) x).avtab.Allows k q := by
  induction ps generalizing x with
  | nil => exact ⟨Nat.le_refl _, Nat.le_refl _, fun _ _ h => h⟩
  | cons p ps ih =>
    obtain ⟨hbad, hadded, hallows⟩ := ih (Loop.line db x p)
    rw [List.foldl_cons]
    rcases line_cases db x p with ⟨-, h⟩ | ⟨r, k, qs, -, -, ha, hb, hq⟩ | ⟨-, h⟩
    · rw [h] at hbad hadded hallows ⊢
      exact ⟨hbad, hadded, hallows⟩
    · exact ⟨by omega, by omega, fun k' q h => hallows k' q ((hq k' q).mpr (.inl h))⟩
    · rw [h] at hbad hadded hallows ⊢
      exact ⟨by simp at hbad; omega, hadded, hallows⟩

/-- Pieces are counted if and only if one of them is refused. -/
theorem bad_lt_foldl_line_iff {db : Policydb} {ps : List Bytes} {x : Loop} :
    x.bad < (ps.foldl (Loop.line db) x).bad ↔ ∃ p ∈ ps, Refuses db p := by
  induction ps generalizing x with
  | nil => simp
  | cons p ps ih =>
    have hle := (foldl_line_le db ps (Loop.line db x p)).1
    rw [List.foldl_cons, List.exists_mem_cons_iff]
    rcases line_cases db x p with ⟨hnone, h⟩ | ⟨r, k, qs, hr, hres, -, hb, -⟩ | ⟨href, h⟩
    · have hno : ¬ Refuses db p := fun ⟨r, hr, _⟩ => by simp [hnone] at hr
      rw [h, ih, or_iff_right hno]
    · have hno : ¬ Refuses db p := fun ⟨r', hr', hnot⟩ => by
        obtain rfl : r = r' := by simpa [hr] using hr'
        exact hnot k qs hres
      rw [← hb, ih, or_iff_right hno]
    · rw [h] at hle
      exact iff_of_true (by rw [h]; simp at hle; omega) (.inl href)

/-- Pieces add nothing if and only if no rule of theirs resolves. -/
theorem added_foldl_line_iff {db : Policydb} {ps : List Bytes} {x : Loop} :
    (ps.foldl (Loop.line db) x).added = x.added ↔
      ∀ p ∈ ps, ∀ r, scanRule p = some r → ∀ k qs, ¬ Resolves db r k qs := by
  induction ps generalizing x with
  | nil => simp
  | cons p ps ih =>
    have hle := (foldl_line_le db ps (Loop.line db x p)).2.1
    rw [List.foldl_cons, List.forall_mem_cons]
    rcases line_cases db x p with ⟨hnone, h⟩ | ⟨r, k, qs, hr, hres, ha, -, -⟩ | ⟨⟨r, hr, hnot⟩, h⟩
    · rw [h, ih, hnone]
      simp
    · refine iff_of_false (by omega) fun hall => hall.1 r hr k qs hres
    · rw [h, ← ih (x := ⟨x.added, x.bad + 1, x.avtab⟩), hr]
      simp [hnot]

/-- What a piece adds is there in the end. -/
theorem allows_foldl_line {db : Policydb} {ps : List Bytes} {x : Loop} {p : Bytes} (hp : p ∈ ps)
    {r : Rule} (hr : scanRule p = some r) {k : Key} {qs : List PermDatum}
    (hres : Resolves db r k qs) :
    ∃ k' qs', Resolves db r k' qs' ∧
      ∀ q ∈ qs', (ps.foldl (Loop.line db) x).avtab.Allows k' q := by
  obtain ⟨front, back, rfl⟩ := List.append_of_mem hp
  rw [List.foldl_append, List.foldl_cons]
  have hkeep := (foldl_line_le db back (Loop.line db (front.foldl (Loop.line db) x) p)).2.2
  rcases line_cases db (front.foldl (Loop.line db) x) p with
    ⟨hnone, -⟩ | ⟨r', k', qs', hr', hres', -, -, hq⟩ | ⟨⟨r', hr', hnot⟩, -⟩
  · simp [hr] at hnone
  · obtain rfl : r = r' := by simpa [hr] using hr'
    exact ⟨k', qs', hres', fun q hmem => hkeep k' q ((hq k' q).mpr (.inr ⟨rfl, hmem⟩))⟩
  · obtain rfl : r = r' := by simpa [hr] using hr'
    exact absurd hres (hnot k qs)

/-! ### Whole files -/

theorem addFile_fileOf (db : Policydb) (lines : List Line) (t : Avtab) :
    addFile db (fileOf lines) t = (lines.flatMap Line.pieces).foldl (Loop.line db) ⟨0, 0, t⟩ := by
  rw [addFile, ruleLoop, fileOf, Stdio.chunks_flatMap (by decide), List.flatMap_map]
  rfl

/-- The loop goes on with the pieces of the lines that follow. -/
theorem addFile_append (db : Policydb) (pre post : List Line) (t : Avtab) :
    addFile db (fileOf (pre ++ post)) t =
      (post.flatMap Line.pieces).foldl (Loop.line db) (addFile db (fileOf pre) t) := by
  rw [addFile_fileOf, addFile_fileOf, List.flatMap_append, List.foldl_append]

theorem addFile_concat (db : Policydb) (pre : List Line) (l : Line) (t : Avtab) :
    addFile db (fileOf (pre ++ [l])) t =
      l.pieces.foldl (Loop.line db) (addFile db (fileOf pre) t) := by
  rw [addFile_append, List.flatMap_singleton]

/-- A line of which a piece is refused makes `main` fail. -/
theorem exitStatus_of_refuses {db : Policydb} {l : Line} (h : ∃ p ∈ l.pieces, Refuses db p)
    (pre post : List Line) (t : Avtab) :
    (addFile db (fileOf pre) t).bad < (addFile db (fileOf (pre ++ [l])) t).bad ∧
      exitStatus (addFile db (fileOf (pre ++ l :: post)) t) = 1 := by
  have hlt : (addFile db (fileOf pre) t).bad < (addFile db (fileOf (pre ++ [l])) t).bad := by
    rw [addFile_concat]
    exact bad_lt_foldl_line_iff.mpr h
  refine ⟨hlt, if_pos ?_⟩
  rw [List.append_cons, addFile_append]
  have hle := (foldl_line_le db (post.flatMap Line.pieces)
    (addFile db (fileOf (pre ++ [l])) t)).1
  omega

/-- **No rule of a file is lost silently if and only if every line is heard.** -/
theorem noneLost_iff (db : Policydb) (t : Avtab) (lines : List Line) :
    NoneLost db t lines ↔ ∀ l ∈ lines, l.Heard db := by
  constructor
  · intro h l hl
    obtain ⟨pre, post, rfl⟩ := List.append_of_mem hl
    obtain ⟨hform, hother⟩ := h pre l post rfl
    simp only [addFile_concat, bad_lt_foldl_line_iff, added_foldl_line_iff] at hform hother
    refine ⟨fun w hw => ?_, fun hnone hblank => ?_⟩
    · rcases hform w hw with ⟨p, hp, r, hr, hsays, -⟩ | ⟨hcounted, -⟩
      · exact .inl ⟨p, hp, r, hr, hsays⟩
      · exact .inr hcounted
    · obtain ⟨⟨hcounted, -⟩, hnothing⟩ := hother hnone hblank
      exact ⟨hcounted, hnothing⟩
  · rintro h pre l post rfl
    obtain ⟨hform, hother⟩ := h l (by simp)
    refine ⟨fun w hw => ?_, fun hnone hblank => ?_⟩
    · by_cases href : ∃ p ∈ l.pieces, Refuses db p
      · exact .inr (exitStatus_of_refuses href pre post t)
      obtain ⟨p, hp, r, hr, hsays⟩ := (hform w hw).resolve_right href
      have hres : ∃ k qs, Resolves db r k qs := by
        by_contra hnot
        exact href ⟨p, hp, r, hr, fun k qs hq => hnot ⟨k, qs, hq⟩⟩
      obtain ⟨k, qs, hq⟩ := hres
      have hmem : p ∈ (l :: post).flatMap Line.pieces :=
        List.mem_flatMap.mpr ⟨l, by simp, hp⟩
      refine .inl ⟨p, hp, r, hr, hsays, ?_⟩
      rw [addFile_append]
      exact allows_foldl_line hmem hr hq
    · obtain ⟨href, hnothing⟩ := hother hnone hblank
      refine ⟨exitStatus_of_refuses href pre post t, ?_⟩
      rw [addFile_concat]
      exact added_foldl_line_iff.mpr hnothing

/-- A line `a b c`, from which the permissions are missing, is passed over in silence. -/
theorem noneLost_not_always :
    ¬ ∀ (db : Policydb) (t : Avtab) (lines : List Line), NoneLost db t lines := by
  intro h
  obtain ⟨-, hother⟩ := h ⟨[], []⟩ (fun _ => none) [⟨[97, 32, 98, 32, 99], by decide⟩] [] _ [] rfl
  obtain ⟨⟨hcounted, -⟩, -⟩ := hother (by decide) (show ¬ words _ = [] by decide)
  exact absurd hcounted (by decide)

/-! ### Short lines -/

section Short

variable {l : Line}

theorem pieces_of_short (h : l.bytes.length ≤ 510) : l.pieces = [l.bytes ++ [newline]] :=
  Stdio.chunks_of_short l.no_newline (by omega)

/-- The words that are scanned from a short line are those of the line without its comment. -/
theorem words_takeWhile (hzero : 0 ∉ l.bytes) :
    words ((l.bytes ++ [newline]).takeWhile fun c => c ≠ 0 ∧ c ≠ 35) = words l.cut := by
  have hcut : l.bytes.takeWhile (fun c => decide (c ≠ 0 ∧ c ≠ 35)) = l.cut := by
    rw [Line.cut]
    generalize l.bytes = bs at hzero
    induction bs with
    | nil => rfl
    | cons c bs ih =>
      obtain ⟨hc, hbs⟩ : 0 ≠ c ∧ 0 ∉ bs := by simpa using hzero
      rw [List.takeWhile_cons, List.takeWhile_cons, ih hbs]
      simp [Ne.symm hc]
  rw [List.takeWhile_append, hcut]
  split_ifs with hall
  · have hself : l.cut = l.bytes := (List.takeWhile_prefix _).eq_of_length hall
    rw [hself]
    exact (Stdio.words_append_cons (by decide) l.bytes []).trans (List.append_nil _)
  · rfl

/-- **A short line of the documented form whose words fit is heard.** -/
theorem heard_of_fits (db : Policydb) (hlen : l.bytes.length ≤ 510) (hzero : 0 ∉ l.bytes)
    {s t c p : Bytes} (hwords : words l.cut = [s, t, c, p]) (hs : s.length ≤ 127)
    (ht : t.length ≤ 127) (hc : c.length ≤ 63) (hp : p.length ≤ 255)
    (hform : [] ∉ p.splitOn 44) : l.Heard db := by
  have hstated : l.stated? = some ⟨s, t, c, p.splitOn 44⟩ := by
    rw [Line.stated?, hwords]
    exact if_neg hform
  have htokens : tokens p = p.splitOn 44 :=
    List.filter_eq_self.mpr fun w hw => by simpa using ne_of_mem_of_not_mem hw hform
  rw [← words_takeWhile hzero] at hwords
  obtain ⟨r₁, h₁, hr₁⟩ := Stdio.scanString_of_words hwords hs
  obtain ⟨r₂, h₂, hr₂⟩ := Stdio.scanString_of_words hr₁ ht
  obtain ⟨r₃, h₃, hr₃⟩ := Stdio.scanString_of_words hr₂ hc
  obtain ⟨r₄, h₄, -⟩ := Stdio.scanString_of_words hr₃ hp
  have hscan : scanRule (l.bytes ++ [newline]) = some ⟨s, t, c, p, hp⟩ := by
    simp only [scanRule, h₁, h₂, h₃, h₄, Option.bind_some, Option.map_some]
  refine ⟨fun w hw => .inl ⟨_, by simp [pieces_of_short hlen], _, hscan, ?_⟩, fun hnone => ?_⟩
  · rw [← Option.some.inj (hstated.symm.trans hw), Rule.stated, htokens]
  · rw [hstated] at hnone
    cases hnone

/-- Fewer than four words, which fit, are no rule. -/
theorem scanRule_of_few {line : Bytes}
    (hfew : (words (line.takeWhile fun c => c ≠ 0 ∧ c ≠ 35)).length < 4)
    (hfit : ∀ w ∈ words (line.takeWhile fun c => c ≠ 0 ∧ c ≠ 35), w.length ≤ 63) :
    scanRule line = none := by
  simp only [scanRule]
  generalize (line.takeWhile fun c => decide (c ≠ 0 ∧ c ≠ 35)) = s at hfew hfit
  refine Stdio.bind_scanString_eq_none (fun w hw => (hfit w hw).trans (by decide)) fun a s₁ h₁ => ?_
  rw [h₁, List.length_cons] at hfew
  rw [h₁, List.forall_mem_cons] at hfit
  refine Stdio.bind_scanString_eq_none (fun w hw => (hfit.2 w hw).trans (by decide))
    fun b s₂ h₂ => ?_
  rw [h₂, List.length_cons] at hfew
  rw [h₂, List.forall_mem_cons] at hfit
  refine Stdio.bind_scanString_eq_none hfit.2.2 fun c s₃ h₃ => ?_
  rw [h₃, List.length_cons] at hfew
  have hnil : words s₃ = [] := List.length_eq_zero_iff.mp (by omega)
  rw [Stdio.scanString_of_blanks 255 hnil]
  rfl

/-- **A short line with too few words, which fit, is lost**, unless it is blank. -/
theorem not_heard_of_few (db : Policydb) (hlen : l.bytes.length ≤ 510) (hzero : 0 ∉ l.bytes)
    (hfew : (words l.cut).length < 4) (hfit : ∀ w ∈ words l.cut, w.length ≤ 63)
    (hblank : ¬ l.Blank) : ¬ l.Heard db := by
  have hstated : l.stated? = none := by
    rw [Line.stated?]
    split
    · rename_i h
      simp [h] at hfew
    · rfl
  have hscan : scanRule (l.bytes ++ [newline]) = none :=
    scanRule_of_few (by rwa [words_takeWhile hzero]) (by rwa [words_takeWhile hzero])
  intro h
  obtain ⟨⟨p, hp, r, hr, -⟩, -⟩ := h.2 hstated hblank
  rw [pieces_of_short hlen, List.mem_singleton] at hp
  rw [hp, hscan] at hr
  cases hr

end Short

end Sepolicy

end A1000

import Mathlib.Data.List.Basic

/-!
# The painter's algorithm at one pixel

Surfaces lie one over the other, and each of them paints over what is below it. What one of them is
at a pixel is a *cell*: whether the pixel is in its footprint, whether it is taken to hide there
what is below, and what it makes of a colour. Nothing says that it does hide it: this is `Hides`.
The picture at the pixel is what the cells, from the back to the front, make of the background; a
list of cells is kept front to back.

A compositor that wants to paint little keeps with each surface where it was visible and where it
was covered when it last looked, and from this and the new arrangement works out a damaged region.
`Clean` says that a pixel is not in it, and `picture_eq_of_clean` that nothing has to be painted
there.

## Main definitions

* `Painter.Cell`, `Painter.picture` — a surface at a pixel, and the picture there
* `Painter.Cell.Hides` — the surface hides what it is taken to hide
* `Painter.RecordedFrom` — the records are those of the present arrangement
* `Painter.Cell.damaged`, `Painter.CleanFrom` — the damage an arrangement does, given the records
* `Painter.Changed` — how an arrangement may have come from an earlier one

## Main results

* `Painter.picture_filter` — surfaces that are hidden or paint nothing may be left out
* `Painter.picture_congr_background` — an opaque surface hides the background
* `Painter.picture_eq_of_clean` — where there is no damage the picture is the earlier one
-/

namespace Painter

variable {C : Type*}

/-- A surface at one pixel, with what has been recorded of it: whether it was visible there, whether
it was covered there, and whether it has been changed since. -/
structure Cell (C : Type*) where
  foot : Bool
  full : Bool
  paint : C → C
  vis : Bool
  cov : Bool
  changed : Bool
  /-- A surface is opaque only in its footprint -/
  foot_of_full : full = true → foot = true
  /-- and paints nothing outside of it. -/
  outside : foot = false → ∀ a, paint a = a

/-- Where the surface is opaque it does not look at what is below. -/
def Cell.Hides (c : Cell C) : Prop := c.full = true → ∀ a b, c.paint a = c.paint b

/-- The picture: every surface paints over what the ones behind it have made. -/
def picture (bg : C) : List (Cell C) → C
  | [] => bg
  | c :: cs => c.paint (picture bg cs)

@[simp] theorem picture_nil (bg : C) : picture bg [] = bg := rfl

@[simp] theorem picture_cons (bg : C) (c : Cell C) (cs : List (Cell C)) :
    picture bg (c :: cs) = c.paint (picture bg cs) := rfl

theorem picture_append (bg : C) (cs ds : List (Cell C)) :
    picture bg (cs ++ ds) = picture (picture bg ds) cs := by
  induction cs with
  | nil => rfl
  | cons c cs ih => rw [List.cons_append, picture_cons, ih, picture_cons]

/-- The picture depends on what is painted only. -/
theorem picture_congr {cs ds : List (Cell C)} (h : cs.map (·.paint) = ds.map (·.paint)) (bg : C) :
    picture bg cs = picture bg ds := by
  induction cs generalizing ds with
  | nil =>
    rw [List.map_nil, eq_comm, List.map_eq_nil_iff] at h
    rw [h]
  | cons c cs ih =>
    obtain ⟨d, ds, rfl⟩ : ∃ d ds', ds = d :: ds' :=
      List.exists_cons_of_ne_nil fun hds => by simp [hds] at h
    simp only [List.map_cons, List.cons.injEq] at h
    rw [picture_cons, picture_cons, h.1, ih h.2]

/-- Where nothing lies there is the background. -/
theorem picture_of_no_foot {bg : C} {cs : List (Cell C)} (h : ∀ c ∈ cs, c.foot = false) :
    picture bg cs = bg := by
  induction cs with
  | nil => rfl
  | cons c cs ih =>
    rw [picture_cons, c.outside (h c List.mem_cons_self),
      ih fun d hd => h d (List.mem_cons_of_mem c hd)]

/-- **The background does not show** through an opaque surface. -/
theorem picture_congr_background {cs : List (Cell C)} (hides : ∀ c ∈ cs, c.Hides)
    (h : ∃ c ∈ cs, c.full = true) (bg bg' : C) : picture bg cs = picture bg' cs := by
  induction cs with
  | nil => simp at h
  | cons c cs ih =>
    obtain ⟨d, hd, hfull⟩ := h
    rcases List.mem_cons.mp hd with rfl | hd
    · exact hides d List.mem_cons_self hfull _ _
    · rw [picture_cons, picture_cons,
        ih (fun b hb => hides b (List.mem_cons_of_mem c hb)) ⟨d, hd, hfull⟩]

/-- The surfaces `p` leaves out paint nothing, or are behind an opaque one. -/
def Spares {α : Type*} (cell : α → Cell C) (p : α → Bool) : List α → Prop
  | [] => True
  | a :: as => (p a = false → ∀ x, (cell a).paint x = x) ∧ ((cell a).full = true ∨ Spares cell p as)

/-- **Leaving surfaces out** that paint nothing or that are hidden does not change the picture. -/
theorem picture_filter {α : Type*} {cell : α → Cell C} {p : α → Bool} {as : List α}
    (hides : ∀ a ∈ as, (cell a).Hides) (h : Spares cell p as) (bg : C) :
    picture bg ((as.filter p).map cell) = picture bg (as.map cell) := by
  induction as with
  | nil => rfl
  | cons a as ih =>
    obtain ⟨hnone, hrest⟩ := h
    have hides' : ∀ b ∈ as, (cell b).Hides := fun b hb => hides b (List.mem_cons_of_mem a hb)
    have hconst := hides a List.mem_cons_self
    rw [List.map_cons, picture_cons]
    cases hp : p a with
    | true =>
      rw [List.filter_cons_of_pos hp, List.map_cons, picture_cons]
      rcases hrest with hfull | hrest
      · exact hconst hfull _ _
      · rw [ih hides' hrest]
    | false =>
      rw [List.filter_cons_of_neg (by simp [hp]), hnone hp]
      rcases hrest with hfull | hrest
      · -- an opaque surface that paints nothing: there is one colour only
        rw [← hnone hp (picture bg ((as.filter p).map cell)), ← hnone hp (picture bg (as.map cell))]
        exact hconst hfull _ _
      · exact ih hides' hrest

/-! ### Records and damage -/

/-- Each surface has been recorded as visible where nothing opaque is in front of it, and as covered
where something is; `full` and `foot` say whether there are such surfaces in front of all these. -/
def RecordedFrom (full foot : Bool) : List (Cell C) → Prop
  | [] => True
  | c :: cs => c.vis = (c.foot && !full) ∧ c.cov = (c.foot && foot) ∧
      RecordedFrom (full || c.full) (foot || c.foot) cs

abbrev Recorded (cs : List (Cell C)) : Prop := RecordedFrom false false cs

/-- The damage a surface does, `full` and `foot` being in front of it. A changed surface damages
what it shows and what it has shown. One that has not changed damages what it shows and something
had covered, and what is exposed now but was not exposed. -/
def Cell.damaged (full foot : Bool) (c : Cell C) : Bool :=
  !full && if c.changed then (c.foot && !full) || c.vis
  else ((c.foot && !full) && c.cov) ||
    (((c.foot && !full) && !(c.foot && foot)) && !(c.vis && !c.cov))

/-- No surface does damage. -/
def CleanFrom (full foot : Bool) : List (Cell C) → Prop
  | [] => True
  | c :: cs => c.damaged full foot = false ∧ CleanFrom (full || c.full) (foot || c.foot) cs

abbrev Clean (cs : List (Cell C)) : Prop := CleanFrom false false cs

/-- The pixel is in the footprint of a surface that has not been changed. -/
def Cell.lasts (c : Cell C) : Bool := !c.changed && c.foot

/-- How the arrangement `now` may have come from the arrangement `old`: the surfaces that have not
been changed are surfaces of before, in the same order, and a surface that was visible is one of
these, or some changed surface is recorded as visible. -/
structure Changed (old now : List (Cell C)) : Prop where
  kept : (now.filter Cell.lasts).Sublist old
  seen : ∀ c ∈ old, c.vis = true → (c ∈ now ∧ c.changed = false) ∨
    ∃ d ∈ now, d.changed = true ∧ d.vis = true

theorem recordedFrom_append {full foot : Bool} {cs ds : List (Cell C)} :
    RecordedFrom full foot (cs ++ ds) ↔ RecordedFrom full foot cs ∧
      RecordedFrom (full || cs.any (·.full)) (foot || cs.any (·.foot)) ds := by
  induction cs generalizing full foot with
  | nil => simp [RecordedFrom]
  | cons c cs ih => simp only [List.cons_append, RecordedFrom, ih, List.any_cons, Bool.or_assoc,
      and_assoc]

theorem cleanFrom_append {full foot : Bool} {cs ds : List (Cell C)} :
    CleanFrom full foot (cs ++ ds) ↔ CleanFrom full foot cs ∧
      CleanFrom (full || cs.any (·.full)) (foot || cs.any (·.foot)) ds := by
  induction cs generalizing full foot with
  | nil => simp [CleanFrom]
  | cons c cs ih => simp only [List.cons_append, CleanFrom, ih, List.any_cons, Bool.or_assoc,
      and_assoc]

/-- Records do not depend on what is painted. -/
theorem recordedFrom_congr {full foot : Bool} {cs ds : List (Cell C)}
    (h : cs.map (fun c => (c.vis, c.cov, c.foot, c.full)) =
      ds.map fun c => (c.vis, c.cov, c.foot, c.full))
    (hrec : RecordedFrom full foot cs) : RecordedFrom full foot ds := by
  induction cs generalizing ds full foot with
  | nil =>
    rw [List.map_nil, eq_comm, List.map_eq_nil_iff] at h
    rw [h]
    trivial
  | cons c cs ih =>
    obtain ⟨d, ds, rfl⟩ : ∃ d ds', ds = d :: ds' :=
      List.exists_cons_of_ne_nil fun hds => by simp [hds] at h
    simp only [List.map_cons, List.cons.injEq, Prod.mk.injEq] at h
    obtain ⟨⟨hvis, hcov, hfoot, hfull⟩, hrest⟩ := h
    obtain ⟨hv, hc, hr⟩ := hrec
    exact ⟨hvis ▸ hfoot ▸ hv, hcov ▸ hfoot ▸ hc, hfull ▸ hfoot ▸ ih hrest hr⟩

/-- The records of one surface among others. -/
theorem Recorded.at {cs ds : List (Cell C)} {c : Cell C} (h : Recorded (cs ++ c :: ds)) :
    c.vis = (c.foot && !cs.any (·.full)) ∧ c.cov = (c.foot && cs.any (·.foot)) := by
  obtain ⟨-, hvis, hcov, -⟩ := recordedFrom_append.mp h
  simpa using And.intro hvis hcov

theorem Clean.at {cs ds : List (Cell C)} {c : Cell C} (h : Clean (cs ++ c :: ds)) :
    c.damaged (cs.any (·.full)) (cs.any (·.foot)) = false := by
  obtain ⟨-, hc, -⟩ := cleanFrom_append.mp h
  simpa using hc

/-- With right records, it is enough that the surfaces that are visible and left out paint
nothing. -/
theorem spares_of_recorded {α : Type*} {cell : α → Cell C} {p : α → Bool} {foot : Bool}
    {as : List α} (hrec : RecordedFrom false foot (as.map cell))
    (h : ∀ a ∈ as, p a = false → (cell a).vis = true → ∀ x, (cell a).paint x = x) :
    Spares cell p as := by
  induction as generalizing foot with
  | nil => trivial
  | cons a as ih =>
    obtain ⟨hvis, -, hrest⟩ := hrec
    rw [Bool.not_false, Bool.and_true] at hvis
    constructor
    · intro hp
      cases hfoot : (cell a).foot with
      | true => exact h a List.mem_cons_self hp (hvis.trans hfoot)
      | false => exact (cell a).outside hfoot
    · cases hfull : (cell a).full with
      | true => exact .inl rfl
      | false =>
        rw [hfull] at hrest
        exact .inr (ih hrest fun b hb => h b (List.mem_cons_of_mem a hb))

/-- The first surface with the pixel in its footprint. -/
theorem exists_first_foot {cs : List (Cell C)} (h : ∃ c ∈ cs, c.foot = true) :
    ∃ as c bs, cs = as ++ c :: bs ∧ (∀ a ∈ as, a.foot = false) ∧ c.foot = true := by
  induction cs with
  | nil => simp at h
  | cons d cs ih =>
    cases hd : d.foot with
    | true => exact ⟨[], d, cs, rfl, by simp, hd⟩
    | false =>
      obtain ⟨c, hc, hfoot⟩ := h
      rcases List.mem_cons.mp hc with rfl | hc
      · rw [hd] at hfoot
        cases hfoot
      · obtain ⟨as, e, bs, rfl, has, he⟩ := ih ⟨c, hc, hfoot⟩
        exact ⟨d :: as, e, bs, rfl, List.forall_mem_cons.mpr ⟨hd, has⟩, he⟩

theorem any_foot_of_none {cs : List (Cell C)} (h : ∀ c ∈ cs, c.foot = false) :
    cs.any (·.foot) = false := by
  rw [List.any_eq_false]
  intro c hc
  simp [h c hc]

theorem full_of_foot {c : Cell C} (h : c.foot = false) : c.full = false := by
  by_contra hfull
  rw [c.foot_of_full (by simpa using hfull)] at h
  cases h

theorem any_full_of_none {cs : List (Cell C)} (h : ∀ c ∈ cs, c.foot = false) :
    cs.any (·.full) = false := by
  rw [List.any_eq_false]
  intro c hc
  simp [full_of_foot (h c hc)]

/-- A changed surface that nothing opaque hides and that does no damage has not shown at all. -/
theorem vis_of_not_damaged {foot : Bool} {c : Cell C} (h : c.damaged false foot = false)
    (hc : c.changed = true) : c.foot = false ∧ c.vis = false := by
  simpa [Cell.damaged, hc] using h

section Clean

variable {old now : List (Cell C)}

/-- When nothing now is opaque, all that was visible is still there. -/
theorem Changed.mem_of_vis (hch : Changed old now) (hclean : Clean now)
    (hfull : ∀ c ∈ now, c.full = false) {c : Cell C} (hc : c ∈ old) (hvis : c.vis = true) :
    c ∈ now := by
  refine ((hch.seen c hc hvis).resolve_right ?_).1
  rintro ⟨d, hd, hdc, hdv⟩
  obtain ⟨as, bs, rfl⟩ := List.append_of_mem hd
  have hnone : as.any (·.full) = false := by
    rw [List.any_eq_false]
    intro a ha
    simp [hfull a (List.mem_append_left _ ha)]
  have hdam := hclean.at
  rw [hnone] at hdam
  rw [(vis_of_not_damaged hdam hdc).2] at hdv
  cases hdv

/-- The topmost surface has not been changed, and was exposed. -/
theorem Clean.topmost {as bs : List (Cell C)} {f : Cell C} (hclean : Clean (as ++ f :: bs))
    (has : ∀ a ∈ as, a.foot = false) (hf : f.foot = true) : f.changed = false ∧ f.cov = false := by
  have hdam := hclean.at
  rw [any_full_of_none has, any_foot_of_none has] at hdam
  have hfc : f.changed = false := by
    by_contra hfc
    rw [(vis_of_not_damaged hdam (by simpa using hfc)).1] at hf
    cases hf
  refine ⟨hfc, ?_⟩
  simp only [Cell.damaged, hfc, hf] at hdam
  grind

/-- The next surface behind a topmost one that is not opaque would be exposed to it for the first
time: there is none, when the topmost one was in front of all that has not been changed. -/
theorem Clean.no_foot_behind {as bs as' bs' cs' : List (Cell C)} {f : Cell C}
    (hclean : Clean (as ++ f :: bs)) (has : ∀ a ∈ as, a.foot = false) (hf : f.foot = true)
    (hfull : f.full = false) (hrec : Recorded (as' ++ f :: (bs' ++ cs')))
    (hsub : (bs.filter Cell.lasts).Sublist cs') : ∀ b ∈ bs, b.foot = false := by
  by_contra hb
  push Not at hb
  obtain ⟨cs, g, ds, rfl, hcs, hg⟩ := exists_first_foot (by simpa using hb)
  have hgdam : g.damaged false true = false := by
    have hclean' : Clean ((as ++ f :: cs) ++ g :: ds) := by simpa using hclean
    simpa [any_full_of_none has, any_full_of_none hcs, hfull, hf] using hclean'.at
  have hgc : g.changed = false := by
    by_contra hgc
    rw [(vis_of_not_damaged hgdam (by simpa using hgc)).1] at hg
    cases hg
  have hgold : g ∈ cs' := hsub.subset (List.mem_filter.mpr ⟨by simp, by simp [Cell.lasts, hgc, hg]⟩)
  obtain ⟨es, hs, rfl⟩ := List.append_of_mem hgold
  have hrec' : Recorded ((as' ++ f :: (bs' ++ es)) ++ g :: hs) := by simpa using hrec
  simp [Cell.damaged, hgc, hg, hrec'.at.2, hf] at hgdam

/-- The same for the earlier arrangement: what was behind the topmost surface would have been
visible, and would be there. -/
theorem Changed.no_foot_behind {as bs as' bs' : List (Cell C)} {f : Cell C}
    (hch : Changed (as' ++ f :: bs') (as ++ f :: bs)) (hrec : Recorded (as' ++ f :: bs'))
    (hclean : Clean (as ++ f :: bs)) (has : ∀ a ∈ as, a.foot = false)
    (hbs : ∀ b ∈ bs, b.foot = false) (has' : ∀ a ∈ as', a.foot = false) (hf : f.foot = true)
    (hfull : f.full = false) (hexp : f.cov = false) : ∀ b ∈ bs', b.foot = false := by
  have hnone : ∀ c ∈ as ++ f :: bs, c.full = false := by
    intro c hc
    rcases List.mem_append.mp hc with hc | hc
    · exact full_of_foot (has c hc)
    · rcases List.mem_cons.mp hc with rfl | hc
      · exact hfull
      · exact full_of_foot (hbs c hc)
  by_contra hb
  push Not at hb
  obtain ⟨cs, g, ds, rfl, hcs, hg⟩ := exists_first_foot (by simpa using hb)
  have hrec' : Recorded ((as' ++ f :: cs) ++ g :: ds) := by simpa using hrec
  have hgvis : g.vis = true := by
    rw [hrec'.at.1, hg]
    simp [any_full_of_none has', any_full_of_none hcs, hfull]
  have hgcov : g.cov = true := by
    rw [hrec'.at.2, hg]
    simp [hf]
  have hgnow := hch.mem_of_vis hclean hnone (by simp) hgvis
  rcases List.mem_append.mp hgnow with hin | hin
  · rw [has g hin] at hg
    cases hg
  · rcases List.mem_cons.mp hin with rfl | hin
    · rw [hexp] at hgcov
      cases hgcov
    · rw [hbs g hin] at hg
      cases hg

/-- **Where there is no damage** the picture is the earlier one. -/
theorem picture_eq_of_clean (hides : ∀ c ∈ now, c.Hides) (hrec : Recorded old)
    (hch : Changed old now) (hclean : Clean now) (bg : C) : picture bg now = picture bg old := by
  by_cases hnow : ∃ c ∈ now, c.foot = true
  · obtain ⟨as, f, bs, rfl, has, hf⟩ := exists_first_foot hnow
    obtain ⟨hfc, hexp⟩ := hclean.topmost has hf
    have hkept : (f :: bs.filter Cell.lasts).Sublist old := by
      refine List.Sublist.trans ?_ hch.kept
      rw [List.filter_append, List.filter_cons_of_pos (by simp [Cell.lasts, hfc, hf])]
      exact List.sublist_append_right _ _
    obtain ⟨old₁, old₂, rfl, hmem, hsub⟩ := List.cons_sublist_iff.mp hkept
    obtain ⟨as', bs', rfl⟩ := List.append_of_mem hmem
    rw [List.append_assoc, List.cons_append] at hrec hch ⊢
    have has' : ∀ a ∈ as', a.foot = false := by
      have hcov := hrec.at.2
      rw [hexp, hf, Bool.true_and, eq_comm, List.any_eq_false] at hcov
      exact fun a ha => by simpa using hcov a ha
    rw [picture_append, picture_append, picture_of_no_foot has, picture_of_no_foot has',
      picture_cons, picture_cons]
    cases hfull : f.full with
    | true => exact hides f (by simp) hfull _ _
    | false =>
      have hbs := hclean.no_foot_behind has hf hfull hrec hsub
      have hbs' := hch.no_foot_behind hrec hclean has hbs has' hf hfull hexp
      rw [picture_of_no_foot hbs, picture_of_no_foot hbs']
  · push Not at hnow
    have hnow' : ∀ c ∈ now, c.foot = false := fun c hc => by simpa using hnow c hc
    have hold : ∀ c ∈ old, c.foot = false := by
      by_contra hb
      push Not at hb
      obtain ⟨cs, g, ds, rfl, hcs, hg⟩ := exists_first_foot (by simpa using hb)
      have hgvis : g.vis = true := by
        rw [hrec.at.1, hg, any_full_of_none hcs]
        rfl
      have hgnow := hch.mem_of_vis hclean (fun c hc => full_of_foot (hnow' c hc)) (by simp) hgvis
      rw [hnow' g hgnow] at hg
      cases hg
    rw [picture_of_no_foot hnow', picture_of_no_foot hold]

end Clean

/-! ### How arrangements change -/

section Change

variable {old as bs as' bs' : List (Cell C)} {c d : Cell C}

theorem changed_refl {cs : List (Cell C)} (h : ∀ c ∈ cs, c.changed = false) : Changed cs cs where
  kept := List.filter_sublist
  seen c hc _ := .inl ⟨hc, h c hc⟩

/-- The surfaces but one. -/
theorem mem_of_ne (h : d ∈ as ++ c :: bs) (hne : d ≠ c) : d ∈ as ++ bs := by
  grind

/-- Taking away a surface that was not visible. -/
theorem Changed.erase (h : Changed old (as ++ c :: bs)) (hvis : c.vis = false) :
    Changed old (as ++ bs) where
  kept := by
    refine List.Sublist.trans (List.Sublist.filter _ ?_) h.kept
    exact (List.append_sublist_append_left as).mpr (List.sublist_cons_self c bs)
  seen b hb hbvis := by
    rcases h.seen b hb hbvis with ⟨hin, hbc⟩ | ⟨d, hd, hdc, hdvis⟩
    · exact .inl ⟨mem_of_ne hin (by rintro rfl; simp [hvis] at hbvis), hbc⟩
    · exact .inr ⟨d, mem_of_ne hd (by rintro rfl; simp [hvis] at hdvis), hdc, hdvis⟩

/-- A new surface: one that has been changed, or that is nowhere near the pixel. -/
theorem Changed.insert (h : Changed old (as ++ bs)) (hc : c.lasts = false) :
    Changed old (as ++ c :: bs) where
  kept := by
    rw [List.filter_append, List.filter_cons_of_neg (by simp [hc]), ← List.filter_append]
    exact h.kept
  seen b hb hbvis := by
    rcases h.seen b hb hbvis with ⟨hin, hbc⟩ | ⟨d, hd, hdc, hdvis⟩
    · exact .inl ⟨by grind, hbc⟩
    · exact .inr ⟨d, by grind, hdc, hdvis⟩

/-- Changing a surface, which may also go to another place. -/
theorem Changed.move (h : Changed old (as ++ c :: bs)) (heq : as ++ bs = as' ++ bs')
    (hd : d.changed = true) (hvis : d.vis = c.vis) : Changed old (as' ++ d :: bs') where
  kept := by
    rw [List.filter_append, List.filter_cons_of_neg (by simp [Cell.lasts, hd]),
      ← List.filter_append, ← heq]
    refine List.Sublist.trans (List.Sublist.filter _ ?_) h.kept
    exact (List.append_sublist_append_left as).mpr (List.sublist_cons_self c bs)
  seen b hb hbvis := by
    have hmem : ∀ {x}, x ∈ as ++ c :: bs → x ≠ c → x ∈ as' ++ d :: bs' := by
      intro x hx hne
      have hx' := mem_of_ne hx hne
      rw [heq] at hx'
      grind
    rcases h.seen b hb hbvis with ⟨hin, hbc⟩ | ⟨x, hx, hxc, hxvis⟩
    · by_cases hbc' : b = c
      · exact .inr ⟨d, by simp, hd, by rw [hvis, ← hbc', hbvis]⟩
      · exact .inl ⟨hmem hin hbc', hbc⟩
    · by_cases hxc' : x = c
      · exact .inr ⟨d, by simp, hd, by rw [hvis, ← hxc', hxvis]⟩
      · exact .inr ⟨x, hmem hx hxc', hxc, hxvis⟩

end Change

end Painter

import A1000.Shim.ZeroCopy

/-!
# One way or the other

Every post that `a1000_overlay_post` takes over either shows its frame, through a page flip or
through `SET_OVERLAY` and `DISPLAY_OVERLAY`, or hands it to the device's own `post`, once. Three
flags decide which way is tried: `g_zc_off` for good, `g_zc_noflip` for good, and `g_zc_flip` from
one long way to the next refused flip.

The device's own `post` is what `a1000_patch_post` has found in the device before it put its own
there.

## Main definitions

* `Shim.OneWay` — a post is shown, or handed on once
* `Shim.FlipsAllowed` — flips come only after a complete long way, and not after `ENOTTY`

## Main results

* `Shim.posts_one_way` — in every run of posts
-/

namespace A1000

namespace Shim

open StepSystem ZeroCopy

/-! ### The properties -/

/-- A request to the overlay device, the wait included. -/
def Act.IsRequest : Act → Prop
  | .request _ _ => True
  | .realPost => False

/-- A flip has been accepted, or a `SET_OVERLAY` and the `DISPLAY_OVERLAY` after it. -/
def ShownBy (acts : List Act) : Prop :=
  (∃ p, .request (.pageflip p) .ok ∈ acts) ∨
    ∃ o d, [.request (.setOverlay o) .ok, .request (.displayOverlay d) .ok] <:+: acts

/-- **A post goes one way or the other**: it shows its frame and returns 0 without the real post,
or it calls the real post once and returns its result. -/
def OneWay (c : PostCall) (out : Shown) : Prop :=
  (ShownBy out.acts ∧ .realPost ∉ out.acts ∧ out.ret = 0) ∨
    (out.acts.count .realPost = 1 ∧ out.ret = c.realPost)

/-- A `SET_OVERLAY` and the `DISPLAY_OVERLAY` after it have been accepted since the last flip that
was refused. -/
def PairSince (acts : List Act) : Prop :=
  ∃ as bs o d, acts = as ++ .request (.setOverlay o) .ok :: .request (.displayOverlay d) .ok :: bs ∧
    ∀ p e, .request (.pageflip p) (.failed e) ∉ bs

/-- The kernel has said that it does not know the request. -/
def NoFlip (acts : List Act) : Prop := ∃ p, .request (.pageflip p) (.failed enotty) ∈ acts

/-- **Flips are made only when they are allowed.** -/
def FlipsAllowed (acts : List Act) : Prop :=
  ∀ as p a bs, acts = as ++ .request (.pageflip p) a :: bs → PairSince as ∧ ¬ NoFlip as

/-! ### What a post does -/

/-- The flags after a part of a post. -/
structure Flagged (s t : Poster) (off flip noflip : Bool) : Prop where
  fbfd : t.gFbfd = s.gFbfd
  realPost : t.gRealPost = s.gRealPost
  off : t.gZcOff = off
  flip : t.gZcFlip = flip
  noflip : t.gZcNoflip = noflip

/-- The flags are what they were. -/
abbrev SameFlagged (s t : Poster) : Prop := Flagged s t s.gZcOff s.gZcFlip s.gZcNoflip

theorem SameFlagged.trans {s t u : Poster} (h : SameFlagged s t) (h' : SameFlagged t u) :
    SameFlagged s u :=
  ⟨h'.fbfd.trans h.fbfd, h'.realPost.trans h.realPost, h'.off.trans h.off, h'.flip.trans h.flip,
    h'.noflip.trans h.noflip⟩

theorem send_spec {files : Files} {granted : Bool} {r : Request} {a : Answer} {s t : Poster}
    {act : Act} (h : send files granted r a s = some (act, t)) :
    (∃ r', ioctl files granted r s.shim = some (r', t.shim) ∧ act = .request r' a) ∧
      SameFlagged s t := by
  obtain ⟨⟨r', u⟩, hio, heq⟩ := Option.map_eq_some_iff.mp h
  cases heq
  exact ⟨⟨r', hio, rfl⟩, rfl, rfl, rfl, rfl, rfl⟩

theorem waitVsync_spec (c : PostCall) (s : Poster) :
    (∀ a ∈ (waitVsync c s).1, a = .request .waitForVsync c.vsync) ∧
      SameFlagged s (waitVsync c s).2 := by
  rw [waitVsync]
  split_ifs <;> exact ⟨by simp, rfl, rfl, rfl, rfl, rfl⟩

theorem ioctl_setOverlay_request {files : Files} {granted : Bool} {o : OvSetting} {r : Request}
    {s t : State} (h : ioctl files granted (.setOverlay o) s = some (r, t)) :
    ∃ o', r = .setOverlay o' := by
  obtain ⟨u, -, heq⟩ := Option.map_eq_some_iff.mp h
  cases heq
  exact ⟨_, rfl⟩

/-- The ways the long way ends. -/
inductive LongEnd (c : PostCall) (s : Poster) (acts : List Act) : Poster → Shown → Prop
  | shown {t : Poster} {o : OvSetting} {d : OvDisplay} {ws : List Act}
      (wait : ∀ a ∈ ws, a = .request .waitForVsync c.vsync)
      (flags : Flagged s t s.gZcOff true s.gZcNoflip) :
      LongEnd c s acts t
        ⟨acts ++ [.request (.setOverlay o) .ok, .request (.displayOverlay d) .ok] ++ ws, 0⟩
  | fell {t : Poster} {as : List Act}
      (long : ∀ a ∈ as, (∃ o b, a = .request (.setOverlay o) b) ∨
        ∃ d b, a = .request (.displayOverlay d) b)
      (flags : SameFlagged s t) : LongEnd c s acts t ⟨acts ++ as ++ [.realPost], c.realPost⟩

theorem longEnd_of_longWay {files : Files} {c : PostCall} {phys : UInt32} {acts : List Act}
    {s s' : Poster} {out : Shown} (real : s.gRealPost = true)
    (h : longWay files c phys acts s = some (s', out)) : LongEnd c s acts s' out := by
  obtain ⟨⟨a, u⟩, hset, h⟩ := Option.bind_eq_some_iff.mp h
  obtain ⟨⟨r, hio, rfl⟩, hu⟩ := send_spec hset
  obtain ⟨o, rfl⟩ := ioctl_setOverlay_request hio
  by_cases hok : c.setOverlay = .ok
  · simp only [hok, ne_eq, not_true_eq_false, if_false] at h
    obtain ⟨⟨b, v⟩, hdisplay, h⟩ := Option.bind_eq_some_iff.mp h
    obtain ⟨⟨r, hio, rfl⟩, hv⟩ := send_spec hdisplay
    obtain ⟨rfl, -⟩ := Prod.mk.inj (Option.some.inj hio)
    have huv := SameFlagged.trans hu hv
    by_cases hdis : c.displayOverlay = .ok
    · simp only [hdis, not_true_eq_false, if_false, Option.some.injEq, Prod.mk.injEq] at h
      obtain ⟨rfl, rfl⟩ := h
      have hwait : (∀ a ∈ (if v.gZcSync then waitVsync c v else ([], v)).1,
          a = .request .waitForVsync c.vsync) ∧
            SameFlagged v (if v.gZcSync then waitVsync c v else ([], v)).2 := by
        split_ifs
        · exact waitVsync_spec c v
        · exact ⟨by simp, rfl, rfl, rfl, rfl, rfl⟩
      have hall := SameFlagged.trans huv hwait.2
      exact .shown hwait.1 ⟨hall.fbfd, hall.realPost, hall.off, rfl, hall.noflip⟩
    · simp only [hdis, not_false_eq_true, if_true, Option.some.injEq, fallback,
        huv.realPost.trans real, Prod.mk.injEq] at h
      obtain ⟨rfl, rfl⟩ := h
      exact .fell (by simp) huv
  · simp only [hok, ne_eq, not_false_eq_true, if_true, Option.some.injEq, fallback,
      hu.realPost.trans real, Prod.mk.injEq] at h
    obtain ⟨rfl, rfl⟩ := h
    exact .fell (by simp) hu

/-- No post can show anything any more. -/
def Poster.Off (s : Poster) : Prop := s.gZcOff = true ∨ s.gFbfd < 0

/-- The ways a post ends. -/
inductive PostEnd (c : PostCall) (s : Poster) : Poster → Shown → Prop
  | off {t : Poster} (off : s.Off ∨ (physOf c s.gZcFrame s).1 = 0)
      (flags : Flagged s t t.gZcOff s.gZcFlip s.gZcNoflip) (stays : t.Off) :
      PostEnd c s t ⟨[.realPost], c.realPost⟩
  | flipped {t : Poster} {p : UInt32} (on : ¬ s.Off) (addressed : (physOf c s.gZcFrame s).1 ≠ 0)
      (flip : s.gZcFlip = true) (noflip : s.gZcNoflip = false) (flags : SameFlagged s t) :
      PostEnd c s t ⟨[.request (.pageflip p) .ok], 0⟩
  | refused {t u : Poster} {p : UInt32} {errno : Int} {out : Shown} (on : ¬ s.Off)
      (addressed : (physOf c s.gZcFrame s).1 ≠ 0) (flip : s.gZcFlip = true)
      (noflip : s.gZcNoflip = false) (flags : Flagged s t s.gZcOff false (errno = enotty))
      (long : LongEnd c t [.request (.pageflip p) (.failed errno)] u out) : PostEnd c s u out
  | long {t u : Poster} {out : Shown} (on : ¬ s.Off)
      (addressed : (physOf c s.gZcFrame s).1 ≠ 0) (flags : SameFlagged s t)
      (long : LongEnd c t [] u out) : PostEnd c s u out

/-- **How a post ends**, told from outside. -/
theorem postEnd_of_overlayPost {files : Files} {c : PostCall} {s s' : Poster} {out : Shown}
    (real : s.gRealPost = true) (h : overlayPost files s c = some (s', out)) :
    PostEnd c s s' out := by
  obtain ⟨ionfd, hion⟩ := physOf_eq c s.gZcFrame s
  simp only [overlayPost, hion] at h
  by_cases hoff : s.gZcOff ∨ s.gFbfd < 0
  · rw [if_pos hoff, fallback, if_pos real] at h
    cases h
    exact .off (.inl hoff) ⟨rfl, rfl, rfl, rfl, rfl⟩ hoff
  rw [if_neg hoff] at h
  by_cases hphys : (physOf c s.gZcFrame s).1 = 0
  · rw [if_pos hphys, fallback, if_pos real] at h
    cases h
    exact .off (.inr hphys) ⟨rfl, rfl, rfl, rfl, rfl⟩ (.inl rfl)
  rw [if_neg hphys] at h
  by_cases hshort : s.gZcFlip = true ∧ ¬ s.gZcNoflip = true
  · rw [if_pos hshort] at h
    obtain ⟨⟨a, t⟩, hflip, h⟩ := Option.bind_eq_some_iff.mp h
    obtain ⟨⟨r, hio, rfl⟩, ht⟩ := send_spec hflip
    obtain ⟨rfl, -⟩ := Prod.mk.inj (Option.some.inj hio)
    have hno : s.gZcNoflip = false := by simpa using hshort.2
    cases hanswer : c.pageflip with
    | ok =>
      simp only [hanswer, Option.some.injEq, Prod.mk.injEq] at h
      obtain ⟨rfl, rfl⟩ := h
      exact .flipped hoff hphys hshort.1 hno ⟨ht.fbfd, ht.realPost, ht.off, ht.flip, ht.noflip⟩
    | failed errno =>
      simp only [hanswer] at h
      -- the state in which the long way is begun
      have hflags : Flagged s { t with
          gZcNoflip := t.gZcNoflip || errno = enotty
          gZcFlip := false } s.gZcOff false (errno = enotty) :=
        ⟨ht.fbfd, ht.realPost, ht.off, rfl, by simp [ht.noflip, hno]⟩
      exact .refused hoff hphys hshort.1 hno hflags
        (longEnd_of_longWay (hflags.realPost.trans real) h)
  · rw [if_neg hshort] at h
    have hflags : SameFlagged s { s with gIonfd := ionfd } := ⟨rfl, rfl, rfl, rfl, rfl⟩
    exact .long hoff hphys hflags (longEnd_of_longWay (hflags.realPost.trans real) h)

/-! ### What the flags remember -/

theorem pairSince_append {as bs : List Act} (h : PairSince as)
    (hbs : ∀ p e, .request (.pageflip p) (.failed e) ∉ bs) : PairSince (as ++ bs) := by
  obtain ⟨as, cs, o, d, rfl, hcs⟩ := h
  refine ⟨as, cs ++ bs, o, d, by simp, fun p e hmem => ?_⟩
  exact (List.mem_append.mp hmem).elim (hcs p e) (hbs p e)

theorem flipsAllowed_snoc {as : List Act} {x : Act} :
    FlipsAllowed (as ++ [x]) ↔
      FlipsAllowed as ∧ ∀ p a, x = .request (.pageflip p) a → PairSince as ∧ ¬ NoFlip as := by
  constructor
  · intro h
    refine ⟨fun bs p a cs heq => h bs p a (cs ++ [x]) (by rw [heq]; simp), ?_⟩
    rintro p a rfl
    exact h as p a [] rfl
  · rintro ⟨h, hx⟩ bs p a cs heq
    rcases List.eq_nil_or_concat cs with rfl | ⟨cs', y, rfl⟩
    · obtain ⟨rfl, hy⟩ := List.append_inj' heq rfl
      exact hx p a (List.cons.inj hy).1
    · rw [List.concat_eq_append, ← List.cons_append, ← List.append_assoc] at heq
      obtain ⟨rfl, -⟩ := List.append_inj' heq rfl
      exact h bs p a cs' rfl

/-- Whatever is no flip may follow. -/
theorem flipsAllowed_append {as bs : List Act} (h : FlipsAllowed as)
    (hbs : ∀ p a, .request (.pageflip p) a ∉ bs) : FlipsAllowed (as ++ bs) := by
  induction bs using List.reverseRecOn with
  | nil => simpa using h
  | append_singleton bs x ih =>
    rw [← List.append_assoc]
    refine flipsAllowed_snoc.mpr ⟨ih fun p a hmem => hbs p a (by simp [hmem]), ?_⟩
    rintro p a rfl
    exact absurd (by simp) (hbs p a)

/-- The invariant: what the flags say about the past. -/
structure Recalls (acts : List Act) (s : Poster) : Prop where
  realPost : s.gRealPost = true
  flip : s.gZcFlip = true → PairSince acts
  noflip : NoFlip acts → s.gZcNoflip = true
  allowed : FlipsAllowed acts

/-- Acts without flips, after which the flag for flips is not newly set. -/
theorem Recalls.quiet {as bs : List Act} {s t : Poster} {off flip : Bool} (h : Recalls as s)
    (flags : Flagged s t off flip s.gZcNoflip) (hflip : flip = true → PairSince (as ++ bs))
    (hbs : ∀ p a, .request (.pageflip p) a ∉ bs) : Recalls (as ++ bs) t where
  realPost := flags.realPost.trans h.realPost
  flip := fun hon => hflip (flags.flip.symm.trans hon)
  noflip := by
    rintro ⟨p, hp⟩
    rw [flags.noflip]
    exact h.noflip ⟨p, (List.mem_append.mp hp).resolve_right (hbs p _)⟩
  allowed := flipsAllowed_append h.allowed hbs

theorem Recalls.longEnd {c : PostCall} {as bs : List Act} {s t : Poster} {out : Shown}
    (h : Recalls (as ++ bs) s) (e : LongEnd c s bs t out) : Recalls (as ++ out.acts) t := by
  cases e with
  | @shown o d ws wait flags =>
    have hws : ∀ p a, Act.request (.pageflip p) a ∉ ws := fun p a hmem => by cases wait _ hmem
    rw [List.append_assoc, ← List.append_assoc]
    refine h.quiet flags (fun _ => ?_) fun p a hmem => ?_
    · exact ⟨as ++ bs, ws, o, d, by simp, fun p e => hws p _⟩
    · simp only [List.mem_append, List.mem_cons, List.not_mem_nil, or_false] at hmem
      rcases hmem with (hmem | hmem) | hmem
      · cases hmem
      · cases hmem
      · exact hws p a hmem
  | @fell cs long flags =>
    have hcs : ∀ p a, Act.request (.pageflip p) a ∉ cs ++ [.realPost] := fun p a hmem => by
      rcases List.mem_append.mp hmem with hmem | hmem
      · rcases long _ hmem with ⟨o, b, heq⟩ | ⟨d, b, heq⟩ <;> cases heq
      · simp at hmem
    rw [List.append_assoc, ← List.append_assoc]
    exact h.quiet flags (fun hon => pairSince_append (h.flip hon) fun p e => hcs p _) hcs

/-- **One post keeps the invariant.** -/
theorem Recalls.post {c : PostCall} {as : List Act} {s t : Poster} {out : Shown}
    (h : Recalls as s) (e : PostEnd c s t out) : Recalls (as ++ out.acts) t := by
  cases e with
  | off off flags stays =>
    exact h.quiet flags (fun hon => pairSince_append (h.flip hon) (by simp)) (by simp)
  | @flipped _ p on addressed flip noflip flags =>
    have hno : ¬ NoFlip as := fun hno => by
      rw [h.noflip hno] at noflip
      cases noflip
    refine ⟨flags.realPost.trans h.realPost, fun _ => pairSince_append (h.flip flip) (by simp),
      fun hnew => ?_, flipsAllowed_snoc.mpr ⟨h.allowed, fun _ _ _ => ⟨h.flip flip, hno⟩⟩⟩
    obtain ⟨q, hq⟩ := hnew
    exact absurd ⟨q, by simpa using hq⟩ hno
  | @refused u _ p errno _ on addressed flip noflip flags long =>
    have hno : ¬ NoFlip as := fun hno => by
      rw [h.noflip hno] at noflip
      cases noflip
    -- after the refused flip
    have hmid : Recalls (as ++ [.request (.pageflip p) (.failed errno)]) u := by
      refine ⟨flags.realPost.trans h.realPost, fun hon => ?_, fun hnew => ?_,
        flipsAllowed_snoc.mpr ⟨h.allowed, fun _ _ _ => ⟨h.flip flip, hno⟩⟩⟩
      · rw [flags.flip] at hon
        cases hon
      · obtain ⟨q, hq⟩ := hnew
        rcases List.mem_append.mp hq with hq | hq
        · exact absurd ⟨q, hq⟩ hno
        · simp only [List.mem_singleton, Act.request.injEq, Answer.failed.injEq] at hq
          rw [flags.noflip, decide_eq_true hq.2.symm]
    exact hmid.longEnd long
  | long on addressed flags long =>
    have hmid : Recalls (as ++ []) _ :=
      h.quiet flags (fun hon => by simpa using h.flip hon) (by simp)
    exact hmid.longEnd long

/-- **One post goes one way or the other.** -/
theorem oneWay_of_post {c : PostCall} {s t : Poster} {out : Shown} (e : PostEnd c s t out) :
    OneWay c out := by
  have hlong : ∀ {s t bs out}, (∀ a ∈ bs, ∃ p b, a = .request (.pageflip p) b) →
      LongEnd c s bs t out → OneWay c out := by
    intro s t bs out hbs e
    have hquiet : Act.realPost ∉ bs := fun hmem => by
      obtain ⟨p, b, heq⟩ := hbs _ hmem
      cases heq
    cases e with
    | @shown o d ws wait flags =>
      refine .inl ⟨.inr ⟨o, d, bs, ws, rfl⟩, ?_, rfl⟩
      simp only [List.mem_append, List.mem_cons, List.not_mem_nil, or_false]
      rintro ((hmem | hmem | hmem) | hmem)
      · exact hquiet hmem
      · cases hmem
      · cases hmem
      · cases wait _ hmem
    | @fell cs long flags =>
      have hcs : Act.realPost ∉ cs := fun hmem => by
        rcases long _ hmem with ⟨o, b, heq⟩ | ⟨d, b, heq⟩ <;> cases heq
      refine .inr ⟨?_, rfl⟩
      rw [List.count_append, List.count_append, List.count_eq_zero.mpr hquiet,
        List.count_eq_zero.mpr hcs]
      rfl
  cases e with
  | off => exact .inr ⟨rfl, rfl⟩
  | @flipped _ p => exact .inl ⟨.inl ⟨p, by simp⟩, by simp, rfl⟩
  | refused on addressed flip noflip flags long =>
    exact hlong (fun a hmem => ⟨_, _, List.mem_singleton.mp hmem⟩) long
  | long on addressed flags long => exact hlong (by simp) long

/-- Once nothing can be shown, nothing is tried. -/
theorem quiet_of_off {c : PostCall} {s t : Poster} {out : Shown} (e : PostEnd c s t out)
    (hoff : s.Off ∨ (physOf c s.gZcFrame s).1 = 0) :
    t.Off ∧ t.gRealPost = s.gRealPost ∧ ∀ a ∈ out.acts, ¬ a.IsRequest := by
  cases e with
  | off off flags stays =>
    refine ⟨stays, flags.realPost, fun a hmem => ?_⟩
    rw [List.mem_singleton.mp hmem]
    exact not_false
  | flipped on addressed => exact absurd hoff (not_or.mpr ⟨on, addressed⟩)
  | refused on addressed => exact absurd hoff (not_or.mpr ⟨on, addressed⟩)
  | long on addressed => exact absurd hoff (not_or.mpr ⟨on, addressed⟩)

/-! ### Every run -/

theorem recalls_of_run {files : Files} {s₀ s : Poster} {tr : List (PostCall × Shown)}
    (real : s₀.gRealPost = true) (flip : s₀.gZcFlip = false)
    (h : Run (overlayPost files) s₀ tr s) : Recalls (history tr) s := by
  refine h.invariant (P := fun tr s => Recalls (history tr) s) ?_ ?_
  · refine ⟨real, fun hon => ?_, fun ⟨p, hp⟩ => ?_, fun as p a bs heq => ?_⟩
    · rw [flip] at hon
      cases hon
    · simp at hp
    · simp at heq
  · intro tr s c t out hs _ hstep
    rw [history_snoc]
    exact hs.post (postEnd_of_overlayPost hs.realPost hstep)

theorem quiet_of_run {files : Files} {s₀ s : Poster} {tr : List (PostCall × Shown)}
    (real : s₀.gRealPost = true) (hoff : s₀.Off) (h : Run (overlayPost files) s₀ tr s) :
    ∀ a ∈ history tr, ¬ a.IsRequest := by
  refine (h.invariant (P := fun tr s => (s.gRealPost = true ∧ s.Off) ∧
    ∀ a ∈ history tr, ¬ a.IsRequest) ⟨⟨real, hoff⟩, by simp⟩ ?_).2
  rintro tr s c t out ⟨⟨real, hoff⟩, hquiet⟩ _ hstep
  obtain ⟨hoff', hreal, hacts⟩ := quiet_of_off (postEnd_of_overlayPost real hstep) (.inl hoff)
  refine ⟨⟨hreal.trans real, hoff'⟩, fun a hmem => ?_⟩
  rw [history_snoc] at hmem
  exact (List.mem_append.mp hmem).elim (hquiet a) (hacts a)

/-- **Every post shows its frame one way or falls back exactly once**, whatever the kernel and ION
answer. -/
theorem posts_one_way {files : Files} {s₀ s : Poster} {tr : List (PostCall × Shown)}
    (real : s₀.gRealPost = true) (flip : s₀.gZcFlip = false)
    (h : Run (overlayPost files) s₀ tr s) :
    (∀ e ∈ tr, OneWay e.1 e.2) ∧ FlipsAllowed (history tr) ∧
      ∀ tr₁ c out tr₂ t, tr = tr₁ ++ (c, out) :: tr₂ → Run (overlayPost files) s₀ tr₁ t →
        (physOf c t.gZcFrame t).1 = 0 → ∀ a ∈ out.acts ++ history tr₂, ¬ a.IsRequest := by
  refine ⟨?_, (recalls_of_run real flip h).allowed, ?_⟩
  · intro e he
    obtain ⟨tr₁, tr₂, rfl⟩ := List.append_of_mem he
    obtain ⟨t, ht, hrest⟩ := h.of_append
    obtain ⟨u, -, hstep, -⟩ := hrest.of_cons
    exact oneWay_of_post (postEnd_of_overlayPost (recalls_of_run real flip ht).realPost hstep)
  · rintro tr₁ c out tr₂ t rfl ht hphys a hmem
    obtain ⟨t', ht', hrest⟩ := h.of_append
    obtain rfl := ht.unique ht'
    obtain ⟨u, -, hstep, htail⟩ := hrest.of_cons
    have hreal := (recalls_of_run real flip ht).realPost
    obtain ⟨hoff, hreal', hacts⟩ :=
      quiet_of_off (postEnd_of_overlayPost hreal hstep) (.inr hphys)
    exact (List.mem_append.mp hmem).elim (hacts a) (quiet_of_run (hreal'.trans hreal) hoff htail a)

/-- The long way, a flip, a flip the kernel does not know about before a `SET_OVERLAY` that it
refuses, and a buffer without an address. -/
theorem posts_one_way_mixed :
    let calls : List PostCall :=
      [postAt 0x9ffcc000 .ok, postAt 0xa0143000 .ok,
        { postAt 0x9ffcc000 (.failed enotty) with setOverlay := .failed 1 }, postAt 0 .ok]
    ∃ tr : List (PostCall × Shown), tr.map Prod.fst = calls ∧
      tr.map (fun e => e.2.acts.length) = [3, 1, 3, 1] ∧ (∀ e ∈ tr, OneWay e.1 e.2) ∧
        FlipsAllowed (history tr) := by
  intro calls
  have hexec : ((exec (overlayPost (defaultFiles false)) (fun _ _ => True)
      (patched bare 3 true true 1 1) calls).map fun r =>
        (r.1.map Prod.fst, r.1.map fun e => e.2.acts.length)) = some (calls, [3, 1, 3, 1]) := by
    decide +kernel
  obtain ⟨⟨tr, s⟩, hs, heq⟩ := Option.map_eq_some_iff.mp hexec
  obtain ⟨hcalls, hacts⟩ := Prod.mk.inj heq
  have hall := posts_one_way rfl rfl (run_of_exec hs)
  exact ⟨tr, hcalls, hacts, hall.1, hall.2.1⟩

end Shim

end A1000

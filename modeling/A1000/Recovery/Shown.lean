import A1000.Recovery.Fbdev

/-!
# Which frames become visible

A frame that has been flipped is visible if the rows on screen hold what the caller had drawn. With
two buffers that is the case when the driver scans from the buffer that it was asked for; when the
back end falls back to memory instead, the frame stays where nobody looks. In memory a frame is
copied into the first buffer, so that the driver has to scan from there.

The driver accepts the offset zero whenever it is asked for it.

## Main definitions

* `Recovery.Handed.Shown` — the rows on screen are those of the finished frame
* `Recovery.Backend.Settled` — the condition on a flip
* `Recovery.Backend.AnyShown` — a flip that shows the frame, whichever it is

## Main results

* `Recovery.anyShown_iff_settled` — one flip
* `Recovery.shown_iff` — whole runs
-/

namespace A1000

namespace Recovery

open StepSystem

variable {α : Type}

/-! ### What is wanted -/

/-- **The frame is visible.** -/
def Handed.Shown (o : Handed α) : Prop := ∀ i < o.height, o.shown i = o.finished i

/-- Every flip shows what was finished before it; nothing is asked of `Init`. -/
def FrameShown : Call α → Option (Handed α) → Prop
  | .init _ _, _ => True
  | .flip _ _, o => ∀ out, o = some out → out.Shown

/-- The driver accepts the offset zero. -/
def Answers.AcceptsZero (a : Answers) : Prop :=
  a.put 0 = .accepted ∧ a.pan 0 = .accepted ∧ a.last 0 = .accepted

def Call.AcceptsZero : Call α → Prop
  | .init _ a => a.AcceptsZero
  | .flip _ a => a.AcceptsZero

/-- **The flip settles**: with two buffers the back end does not fall back, and the driver scans
from the buffer that it was asked for; otherwise it scans from the first row. -/
def Backend.Settled (needsPan : Bool) (a : Answers) (s : Backend α) : Prop :=
  if s.doubleBuffered then
    let outcome := a.outcome needsPan s.scan ((1 - s.displayedBuffer) * s.height)
    ¬ a.Noticed outcome ∧ outcome.1 = (1 - s.displayedBuffer) * s.height
  else s.scan = 0

/-- The condition on a call. -/
def CallSettled (needsPan : Bool) : Option (Backend α) → Call α → Prop
  | some s, .flip _ a => s.Settled needsPan a
  | _, _ => True

/-- Whatever frame is drawn, this flip shows it. -/
def Backend.AnyShown (needsPan : Bool) (zero : α) (a : Answers) (s : Backend α) : Prop :=
  ∀ frame, ((s.draw frame).handed (flip needsPan zero a (s.draw frame))).Shown

/-- Whatever frame is drawn instead, a call shows it. -/
def AnyFrameShown (needsPan : Bool) (zero : α) (tr : List (Call α × Option (Handed α))) :
    Call α → Prop
  | .init _ _ => True
  | .flip _ a => ∀ s, Run (step needsPan zero) none tr (some s) → s.AnyShown needsPan zero a

/-! ### Rows -/

/-- A frame of `h` rows in the rows from `b` on. -/
def write (b h : ℕ) (frame fb : ℕ → α) (i : ℕ) : α :=
  if b ≤ i ∧ i < b + h then frame (i - b) else fb i

theorem write_of_lt {b h i : ℕ} (hi : i < h) (frame fb : ℕ → α) :
    write b h frame fb (b + i) = frame i := by
  rw [write, if_pos (by omega), Nat.add_sub_cancel_left]

/-- **Only from its own rows** can every frame be read. -/
theorem forall_write_iff [Nontrivial α] {b h z : ℕ} (hpos : 0 < h) (fb : ℕ → α) :
    (∀ frame, ∀ i < h, write b h frame fb (z + i) = frame i) ↔ z = b := by
  constructor
  · intro hread
    by_contra hne
    -- the first row differs from all others, and from what lies at `z`
    obtain ⟨c, hc⟩ := exists_ne (fb z)
    have hfirst : write b h (fun i => if i = 0 then c else fb z) fb z = c := by
      simpa using hread (fun i => if i = 0 then c else fb z) 0 hpos
    rw [write] at hfirst
    split_ifs at hfirst with hin hzero
    · omega
    · exact hc hfirst.symm
    · exact hc hfirst.symm
  · rintro rfl frame i hi
    exact write_of_lt hi frame fb

/-! ### One flip -/

/-- A request for the first buffer is never refused. -/
theorem scan_request_zero {s : Backend α} {a : Answers} (ha : a.AcceptsZero) (needsPan : Bool) :
    (s.request needsPan 0 a).scan = 0 ∧ (s.request needsPan 0 a).vi.yoffset = 0 := by
  obtain ⟨hput, hpan, -⟩ := ha
  cases needsPan <;> simp [Backend.request, Backend.ioctl, hput, hpan]

/-- What a flip does with two buffers, in the words of the state before the frame was drawn. -/
theorem flip_double {s : Backend α} (h : s.Ready) (hs : s.doubleBuffered = true) (needsPan : Bool)
    (zero : α) (a : Answers) (frame : ℕ → α) :
    let n := 1 - s.displayedBuffer
    let asked := s.request needsPan n a
    let o := (s.draw frame).handed (flip needsPan zero a (s.draw frame))
    o.height = s.height ∧ (∀ i < s.height, o.finished i = frame i) ∧
      ∀ i, o.shown i = write (n * s.height) s.height frame s.fb
        ((if asked.FallsBack a then (a.last 0).scan asked.scan 0 else asked.scan) + i) := by
  obtain ⟨hle, hdraw⟩ := h.double hs
  have hdrawn : s.draw frame =
      { s with fb := write ((1 - s.displayedBuffer) * s.height) s.height frame s.fb } := by
    rw [Backend.draw, hdraw]
    rfl
  have hflip : flip needsPan zero a (s.draw frame) =
      setDisplayedFramebuffer needsPan zero (1 - s.displayedBuffer) a { s with
        fb := write ((1 - s.displayedBuffer) * s.height) s.height frame s.fb
        grDraw := .buffer s.displayedBuffer } := by
    rw [hdrawn]
    exact flip_of_double (s := { s with
      fb := write ((1 - s.displayedBuffer) * s.height) s.height frame s.fb }) hs needsPan zero a
  obtain ⟨hheight, hfb, hcases⟩ := setDisplayedFramebuffer_cases
    (s := { s with
      fb := write ((1 - s.displayedBuffer) * s.height) s.height frame s.fb
      grDraw := .buffer s.displayedBuffer }) hs needsPan zero (Nat.sub_le 1 s.displayedBuffer) a
  have hreq := request_with s needsPan (1 - s.displayedBuffer) a
    (write ((1 - s.displayedBuffer) * s.height) s.height frame s.fb) s.mem
    (.buffer s.displayedBuffer)
  refine ⟨by rw [hflip]; exact hheight, fun i hi => ?_, fun i => ?_⟩
  · rw [Backend.handed, hdrawn]
    simp only [hdraw, Backend.row]
    exact write_of_lt hi frame s.fb
  · rw [Backend.handed, hflip]
    simp only [hfb]
    rcases hcases with ⟨hfall, -, -, hscan⟩ | ⟨hfall, -, -, -, hscan⟩
    · rw [hreq] at hfall
      rw [hscan, hreq, if_pos (show (s.request needsPan _ a).FallsBack a from hfall)]
    · rw [hreq] at hfall
      rw [hscan, hreq, if_neg (show ¬ (s.request needsPan _ a).FallsBack a from hfall)]

/-- What a flip does in memory. -/
theorem flip_single {s : Backend α} (h : s.Ready) (hs : s.doubleBuffered = false)
    (needsPan : Bool) (zero : α) (a : Answers) (frame : ℕ → α) :
    let o := (s.draw frame).handed (flip needsPan zero a (s.draw frame))
    o.height = s.height ∧ (∀ i < s.height, o.finished i = frame i) ∧
      ∀ i, o.shown i = write 0 s.height frame s.fb (s.scan + i) := by
  have hdrawn : s.draw frame =
      { s with mem := fun i => if i < s.height then frame i else s.mem i } := by
    rw [Backend.draw, h.single hs]
  rw [hdrawn, flip_of_single (s := { s with
    mem := fun i => if i < s.height then frame i else s.mem i }) hs]
  refine ⟨rfl, fun i hi => ?_, fun i => ?_⟩
  · simp only [Backend.handed, Backend.row, h.single hs]
    exact if_pos hi
  · simp only [Backend.handed, write, Nat.zero_le, true_and, Nat.zero_add, Nat.sub_zero]
    split_ifs <;> rfl

/-- **When a flip shows the frame, whichever it is.** -/
theorem anyShown_iff_settled [Nontrivial α] {s : Backend α} (h : s.Ready) {a : Answers}
    (ha : a.AcceptsZero) (needsPan : Bool) (zero : α) :
    s.AnyShown needsPan zero a ↔ s.Settled needsPan a := by
  have hany : ∀ {z b : ℕ}, (∀ frame,
      let o := (s.draw frame).handed (flip needsPan zero a (s.draw frame))
      o.height = s.height ∧ (∀ i < s.height, o.finished i = frame i) ∧
        ∀ i, o.shown i = write b s.height frame s.fb (z + i)) →
      (s.AnyShown needsPan zero a ↔ z = b) := by
    intro z b hall
    rw [← forall_write_iff h.pos s.fb]
    refine forall_congr' fun frame => ?_
    obtain ⟨hheight, hfinished, hshown⟩ := hall frame
    rw [Handed.Shown, hheight]
    exact forall₂_congr fun i hi => by rw [hshown, hfinished i hi]
  cases hs : s.doubleBuffered with
  | false =>
    rw [hany fun frame => flip_single h hs needsPan zero a frame, Backend.Settled, hs]
    rfl
  | true =>
    rw [hany fun frame => flip_double h hs needsPan zero a frame, Backend.Settled, if_pos hs,
      outcome_eq s needsPan (1 - s.displayedBuffer) a]
    obtain ⟨hle, -⟩ := h.double hs
    split_ifs with hfall
    · -- it has asked for the second buffer, and the first is on screen
      have hone : 1 - s.displayedBuffer = 1 := by
        by_contra hnot
        obtain ⟨hscan, hoffset⟩ := scan_request_zero (s := s) ha needsPan
        rw [show 1 - s.displayedBuffer = 0 by omega] at hfall
        exact hfall.2.1 (hscan.trans hoffset.symm)
      refine iff_of_false ?_ fun hsettled => hsettled.1 hfall
      rw [ha.2.2, hone, Nat.one_mul]
      exact Nat.ne_of_lt h.pos
    · exact (and_iff_right hfall).symm

/-! ### Runs -/

section Runs

variable [Nontrivial α] {needsPan : Bool} {zero : α} {tr : List (Call α × Option (Handed α))}
  {x : Option (Backend α)}

/-- **Which runs show whatever is drawn**: those whose flips all settle. -/
theorem anyFrameShown_iff
    (h : RunWhere (step needsPan zero) (fun _ c => c.AcceptsZero) none tr x) :
    Always (fun tr c _ => AnyFrameShown needsPan zero tr c) tr ↔
      RunWhere (step needsPan zero) (CallSettled needsPan) none tr x := by
  refine RunWhere.always_iff (P := fun tr c _ => AnyFrameShown needsPan zero tr c)
    (fun {_ _ c _ _} hrun hzero next => ?_) h
  rcases step_cases next with
    ⟨rfl, -, -, -⟩ | ⟨d, a, rfl, rfl, -, -⟩ | ⟨s, frame, a, rfl, rfl, -, -⟩
  · cases c with
    | init device a => exact iff_of_true trivial trivial
    | flip frame a => cases next
  · exact iff_of_true trivial trivial
  · have hready := ready_of_run hrun s rfl
    refine Iff.trans ?_ (anyShown_iff_settled hready hzero needsPan zero)
    constructor
    · exact fun hany => hany s hrun.run
    · intro hany t ht
      obtain rfl : s = t := Option.some.inj (hrun.unique ht)
      exact hany

omit [Nontrivial α] in
/-- What shows every frame shows the one that is drawn. -/
theorem frameShown_of_any (h : Run (step needsPan zero) none tr x)
    (hany : Always (fun tr c _ => AnyFrameShown needsPan zero tr c) tr) :
    Always (fun _ c o => FrameShown c o) tr := by
  rintro tr₁ c o tr₂ rfl
  obtain ⟨y, hrun, hrest⟩ := h.of_append
  obtain ⟨z, -, next, -⟩ := hrest.of_cons
  have hshown := hany tr₁ c o tr₂ rfl
  cases c with
  | init device a => trivial
  | flip frame a =>
    cases y with
    | none => cases next
    | some s =>
      obtain ⟨-, rfl⟩ := Prod.mk.inj (Option.some.inj next)
      rintro out ⟨⟩
      exact hshown s hrun frame

/-- **Every flipped frame becomes visible in every run whose flips settle**, and no other run is
sure to show what is drawn: at some flip of it another frame would not have been shown. -/
theorem shown_iff (h : RunWhere (step needsPan zero) (fun _ c => c.AcceptsZero) none tr x) :
    (RunWhere (step needsPan zero) (CallSettled needsPan) none tr x →
      Always (fun _ c o => FrameShown c o) tr) ∧
    (Always (fun tr c _ => AnyFrameShown needsPan zero tr c) tr ↔
      RunWhere (step needsPan zero) (CallSettled needsPan) none tr x) :=
  ⟨fun hsettled => frameShown_of_any h.run ((anyFrameShown_iff h).mpr hsettled),
    anyFrameShown_iff h⟩

end Runs

instance (needsPan : Bool) (a : Answers) (s : Backend α) : Decidable (s.Settled needsPan a) :=
  inferInstanceAs (Decidable (ite _ _ _))

instance (needsPan : Bool) :
    (x : Option (Backend α)) → (c : Call α) → Decidable (CallSettled needsPan x c)
  | some s, .flip _ a => inferInstanceAs (Decidable (s.Settled needsPan a))
  | none, .init _ _ => .isTrue trivial
  | none, .flip _ _ => .isTrue trivial
  | some _, .init _ _ => .isTrue trivial

instance : (c : Call α) → Decidable c.AcceptsZero
  | .init _ _ => inferInstanceAs (Decidable (_ ∧ _ ∧ _))
  | .flip _ _ => inferInstanceAs (Decidable (_ ∧ _ ∧ _))

/-- A frame of one colour. -/
def bright (_ : ℕ) : Bool := true

/-- Two frames on a driver that obeys. -/
theorem shown_obeying : ∃ tr x, tr.length = 3 ∧ Run (step true false) none tr x ∧
    Always (fun _ c o => FrameShown c o) tr := by
  obtain ⟨tr, x, hexec, hlen⟩ : ∃ tr x,
      exec (step true false) (fun x c => c.AcceptsZero ∧ CallSettled true x c) none
        [.init (some oneRow) obeying, .flip bright obeying, .flip blank obeying] = some (tr, x) ∧
          tr.length = 3 :=
    ⟨_, _, rfl, rfl⟩
  have hrun := run_of_exec hexec
  exact ⟨tr, x, hlen, hrun.run,
    (shown_iff (hrun.mono fun _ _ h => h.1)).1 (hrun.mono fun _ _ h => h.2)⟩

/-- The driver refuses to scan from anywhere but the first row. -/
def refusing : Answers :=
  { obeying with
    put := fun want => if want = 0 then .accepted else .rejected
    pan := fun want => if want = 0 then .accepted else .rejected }

/-- A frame that is drawn into the second buffer when double buffering is given up. -/
theorem shown_not_always :
    ¬ ∀ (needsPan zero : Bool) (tr : List (Call Bool × Option (Handed Bool)))
      (x : Option (Backend Bool)),
      RunWhere (step needsPan zero) (fun _ c => c.AcceptsZero) none tr x →
        Always (fun _ c o => FrameShown c o) tr := by
  intro h
  have hinit : (Call.init (some oneRow) obeying : Call Bool).AcceptsZero := ⟨rfl, rfl, rfl⟩
  have hflip : (Call.flip bright refusing).AcceptsZero := ⟨rfl, rfl, rfl⟩
  have hbad := h true false _ _
    (.snoc (i := .flip bright refusing)
      (.snoc (i := .init (some oneRow) obeying) .nil hinit rfl) hflip rfl) [_] _ _ [] rfl _ rfl
  exact absurd (hbad 0 (by decide)) (by decide)

end Recovery

end A1000

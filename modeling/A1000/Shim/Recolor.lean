import A1000.Lib.Run
import A1000.Shim.Osd
import Mathlib.Data.List.Induction

/-!
# Presenting a picture again

"A re-presented unchanged buffer must not be re-rotated": the shim hashes what it leaves in a
picture and lists the hash with the *number* of the descriptor it mapped the picture through. A
number does not stay with a buffer, though. Recording an address again closes the shim's descriptor
and takes whatever number `dup` returns; closed numbers are handed out anew; and an entry of the
table is never taken out when its number changes hands.

So a picture is recognised exactly when the hash its last present left is the one listed with the
number it is mapped through now. Any other present turns it once more, which only a grey picture
does not show.

The process may also open and close descriptors of its own between the calls, and anybody may draw.

## Main definitions

* `Recolor.step` — the calls of a process that presents with CPU colour and without the pin
* `Recolor.NeverAgain` — the second of two presents leaves what the first one left
* `Recolor.Recognised` — the table knows the picture, or turning it does not show

## Main results

* `Recolor.never_again_iff` — a run never turns a picture again exactly when every present of an
  unchanged picture is of a recognised one
-/

namespace A1000

namespace Recolor

open Shim StepSystem

/-! ### The calls -/

/-- A call, or a step of the rest of the process, with what the environment answers. -/
inductive Label
  /-- `_sprdcolor_record(phys, fd, len)`, in which `dup` returns `dupfd`. -/
  | record (phys : UInt32) (fd : Int) (len : UInt32) (dupfd : Int)
  | presentOsd (granted : Bool) (o : OvSetting)
  | presentLayer (granted : Bool) (l : GspLayer)
  | openFd (fd : Int) (x : ℕ)
  | closeFd (fd : Int)
  /-- Somebody other than the shim writes the buffer `x`. -/
  | draw (x : ℕ) (bytes : List UInt8)
  deriving DecidableEq, Repr

/-- Whether the step is somebody writing the buffer. -/
def Label.draws (x : ℕ) : Label → Bool
  | .draw y _ => y = x
  | _ => false

/-- The process, and the hash the last present left in each buffer, unless it has been drawn
since. -/
structure Process where
  shim : State
  left : ℕ → Option UInt32

/-- A present that reached its picture, and what it left there. -/
structure Pass where
  buffer : ℕ
  after : List UInt8
  deriving DecidableEq, Repr

/-- `gsp_nopin` is there, `gsp_hwcolor` and `gsp_nocpucolor` are not. -/
def flags : Files := ⟨true, none, false⟩

/-- What `dup(fd)` may return: an error, or a number that is not open, if `fd` is. -/
def DupReturns (fd dupfd : Int) (s : State) : Prop :=
  dupfd = -1 ∨ 0 ≤ dupfd ∧ s.openFds dupfd = none ∧ s.openFds fd ≠ none

instance (fd dupfd : Int) (s : State) : Decidable (DupReturns fd dupfd s) :=
  inferInstanceAs (Decidable (_ ∨ _ ∧ _ ∧ _))

/-- The process after a present. A buffer is always presented with the rectangle of `size`. -/
def Process.presented (size : ℕ → ℕ) (w : Process) (q : Option Picture) (s : State) :
    Option (Process × Option Pass) :=
  match q with
  | none => some ({ w with shim := s }, none)
  | some p =>
    if p.npix = size p.buffer then
      some (⟨s, Function.update w.left p.buffer (process (s.pixels p.buffer) p.npix false).2⟩,
        some ⟨p.buffer, s.pixels p.buffer⟩)
    else none

/-- One step; `none` where it cannot happen. -/
def step (size : ℕ → ℕ) (w : Process) : Label → Option (Process × Option Pass)
  | .record phys fd len dupfd =>
    if phys = 0 ∨ fd < 0 ∨ DupReturns fd dupfd (recordSlot phys w.shim).2 then
      some ({ w with shim := sprdcolorRecord phys fd len dupfd w.shim }, none)
    else none
  | .presentOsd granted o =>
    (handleOsd flags granted o w.shim).bind fun r => w.presented size r.2.1 r.2.2
  | .presentLayer granted l =>
    (handleLayer granted l w.shim).bind fun r => w.presented size r.1 r.2
  | .openFd fd x =>
    if 0 ≤ fd ∧ w.shim.openFds fd = none then
      some ({ w with shim := { w.shim with
        openFds := Function.update w.shim.openFds fd x } }, none)
    else none
  | .closeFd fd =>
    if w.shim.openFds fd ≠ none then some ({ w with shim := close fd w.shim }, none) else none
  | .draw x bytes =>
    if bytes.length = (w.shim.pixels x).length then
      some (⟨{ w.shim with pixels := Function.update w.shim.pixels x bytes },
        Function.update w.left x none⟩, none)
    else none

/-- The process as it is loaded. -/
def start (openFds : Int → Option ℕ) (pixels : ℕ → List UInt8) : Process :=
  ⟨loaded openFds pixels, fun _ => none⟩

/-! ### The property and the condition -/

/-- **Re-presenting never turns again.** If nobody but the shim writes a buffer between two
presents, the second leaves every pixel as the first left it. -/
def NeverAgain (tr : List (Label × Option Pass)) : Prop :=
  ∀ tr₁ l₁ p₁ tr₂ l₂ p₂ tr₃, tr = tr₁ ++ (l₁, some p₁) :: (tr₂ ++ (l₂, some p₂) :: tr₃) →
    p₁.buffer = p₂.buffer → (∀ e ∈ tr₂, e.1.draws p₁.buffer = false) → p₂.after = p₁.after

/-- The picture a call presents. -/
def picture (s : State) : Label → Option Picture
  | .presentOsd granted o => if o.ForOsd then mapOsd granted o s else none
  | .presentLayer granted l => mapLayer granted l s
  | _ => none

/-- If the call presents a picture that nobody has drawn since its last present, then the hash left
there is the one listed with the number it is mapped through now, or the picture is grey. -/
def Recognised (w : Process) (l : Label) : Prop :=
  ∀ p ∈ picture w.shim l, ∀ h ∈ w.left p.buffer,
    w.shim.fdHash p.fd = h ∨ Grey p.npix (w.shim.pixels p.buffer)

/-! ### One step -/

/-- **What a step does** to the pictures and to what is left in them. -/
inductive Effect (size : ℕ → ℕ) (w : Process) : Label → Process → Option Pass → Prop
  /-- No picture is touched. -/
  | quiet {l : Label} {s : State} (calm : ∀ x, l.draws x = false)
      (nothing : picture w.shim l = none) (pixels : s.pixels = w.shim.pixels) :
      Effect size w l { w with shim := s } none
  | drew {x : ℕ} {bytes : List UInt8} : Effect size w (.draw x bytes)
      ⟨{ w.shim with pixels := Function.update w.shim.pixels x bytes },
        Function.update w.left x none⟩ none
  | passed {l : Label} {p : Picture} {s : State} (shown : picture w.shim l = some p)
      (npix : p.npix = size p.buffer) (done : Presented w.shim s (some p)) :
      Effect size w l
        ⟨s, Function.update w.left p.buffer (process (s.pixels p.buffer) p.npix false).2⟩
        (some ⟨p.buffer, s.pixels p.buffer⟩)

theorem Process.presented_effect {size : ℕ → ℕ} {w w' : Process} {l : Label} {q : Option Picture}
    {s : State} {o : Option Pass} (calm : ∀ x, l.draws x = false)
    (shown : picture w.shim l = q) (done : Presented w.shim s q)
    (h : w.presented size q s = some (w', o)) : Effect size w l w' o ∧ w'.shim = s := by
  cases q with
  | none =>
    cases h
    cases done with
    | unmapped pixels => exact ⟨.quiet calm shown pixels, rfl⟩
  | some p =>
    simp only [Process.presented] at h
    split_ifs at h with hsize
    cases h
    exact ⟨.passed shown hsize done, rfl⟩

/-- **One step** is one of these, and the flags stay what the files say. -/
theorem step_cases {size : ℕ → ℕ} {w w' : Process} {l : Label} {o : Option Pass}
    (hf : Flags flags w.shim) (h : step size w l = some (w', o)) :
    Effect size w l w' o ∧ Flags flags w'.shim := by
  cases l with
  | record phys fd len dupfd =>
    simp only [step] at h
    split_ifs at h
    cases h
    obtain ⟨same, pixels⟩ := sameFlags_sprdcolorRecord phys fd len dupfd w.shim
    exact ⟨.quiet (fun _ => rfl) rfl pixels, hf.of_same same⟩
  | presentOsd granted osd =>
    obtain ⟨⟨osd', q, s⟩, hosd, h⟩ := Option.bind_eq_some_iff.mp h
    by_cases ho : osd.ForOsd
    · obtain ⟨rfl, -, hq, done, hf'⟩ := handleOsd_spec hf rfl ho hosd
      have shown : picture w.shim (.presentOsd granted osd) = q := (if_pos ho).trans hq.symm
      obtain ⟨e, rfl⟩ := Process.presented_effect (fun _ => rfl) shown done h
      exact ⟨e, hf'⟩
    · rw [handleOsd, if_pos ho] at hosd
      cases hosd
      have shown : picture w.shim (.presentOsd granted osd) = none := if_neg ho
      obtain ⟨e, hs⟩ := Process.presented_effect (fun _ => rfl) shown (.unmapped rfl) h
      exact ⟨e, hs ▸ hf⟩
  | presentLayer granted layer =>
    obtain ⟨⟨q, s⟩, hlayer, h⟩ := Option.bind_eq_some_iff.mp h
    have same := sameFlags_of_turnMapped hlayer
    obtain ⟨hq, done⟩ := presented_of_turnMapped hlayer
    have shown : picture w.shim (.presentLayer granted layer) = q := hq.symm
    obtain ⟨e, rfl⟩ := Process.presented_effect (fun _ => rfl) shown (hq ▸ done) h
    exact ⟨e, hf.of_same same⟩
  | openFd fd x =>
    simp only [step] at h
    split_ifs at h
    cases h
    exact ⟨.quiet (fun _ => rfl) rfl rfl, hf.of_same ⟨rfl, rfl, rfl, rfl⟩⟩
  | closeFd fd =>
    simp only [step] at h
    split_ifs at h
    cases h
    exact ⟨.quiet (fun _ => rfl) rfl rfl, hf.of_same ⟨rfl, rfl, rfl, rfl⟩⟩
  | draw x bytes =>
    simp only [step] at h
    split_ifs at h
    cases h
    exact ⟨.drew, hf.of_same ⟨rfl, rfl, rfl, rfl⟩⟩

/-! ### The picture as its last present left it -/

/-- What is known of the picture `x` after one more step. -/
def keep (x : ℕ) (b : Option (List UInt8)) (e : Label × Option Pass) : Option (List UInt8) :=
  match e.2.filter fun p => p.buffer = x with
  | some p => some p.after
  | none => if e.1.draws x then none else b

@[simp] theorem keep_none (x : ℕ) (b : Option (List UInt8)) (l : Label) :
    keep x b (l, none) = if l.draws x then none else b := rfl

@[simp] theorem keep_some (x : ℕ) (b : Option (List UInt8)) (l : Label) (p : Pass) :
    keep x b (l, some p) =
      if p.buffer = x then some p.after else if l.draws x then none else b := by
  by_cases hx : p.buffer = x <;> simp [keep, Option.filter, hx]

/-- The picture `x` as its last present left it, unless somebody has drawn since. -/
def lastLeft (x : ℕ) (tr : List (Label × Option Pass)) : Option (List UInt8) :=
  tr.foldl (keep x) none

@[simp] theorem lastLeft_nil (x : ℕ) : lastLeft x [] = none := rfl

@[simp] theorem lastLeft_snoc (x : ℕ) (tr : List (Label × Option Pass)) (e : Label × Option Pass) :
    lastLeft x (tr ++ [e]) = keep x (lastLeft x tr) e := by
  simp [lastLeft]

/-- The picture is left as its last present left it. -/
def KeepsLast (tr : List (Label × Option Pass)) (_ : Label) (o : Option Pass) : Prop :=
  ∀ p ∈ o, ∀ b ∈ lastLeft p.buffer tr, p.after = b

/-- Where what is left in a picture comes from. -/
theorem exists_of_lastLeft {x : ℕ} {tr : List (Label × Option Pass)} {b : List UInt8}
    (h : lastLeft x tr = some b) :
    ∃ tr₁ l p tr₂, tr = tr₁ ++ (l, some p) :: tr₂ ∧ p.buffer = x ∧ p.after = b ∧
      ∀ e ∈ tr₂, e.1.draws x = false := by
  induction tr using List.reverseRecOn with
  | nil => cases h
  | append_singleton tr e ih =>
    rw [lastLeft_snoc, keep] at h
    split at h
    case h_1 p hp =>
      obtain ⟨hsome, hx⟩ := Option.filter_eq_some_iff.mp hp
      cases h
      exact ⟨tr, e.1, p, [], by rw [← hsome], by simpa using hx, rfl, by simp⟩
    case h_2 =>
      split_ifs at h with hdraw
      obtain ⟨tr₁, l, p, tr₂, rfl, hx, hafter, hcalm⟩ := ih h
      refine ⟨tr₁, l, p, tr₂ ++ [e], by simp, hx, hafter, fun e' he' => ?_⟩
      rcases List.mem_append.mp he' with he' | he'
      · exact hcalm e' he'
      · rw [List.mem_singleton.mp he']
        simpa using hdraw

/-- What a present left is still there when nobody has drawn and every later present has left it as
it was. -/
theorem lastLeft_of_calm {p : Pass} {l : Label} {tr₁ : List (Label × Option Pass)} :
    ∀ {tr₂ : List (Label × Option Pass)}, Always KeepsLast (tr₁ ++ (l, some p) :: tr₂) →
      (∀ e ∈ tr₂, e.1.draws p.buffer = false) →
        lastLeft p.buffer (tr₁ ++ (l, some p) :: tr₂) = some p.after := by
  intro tr₂
  induction tr₂ using List.reverseRecOn with
  | nil =>
    intro _ _
    simp
  | append_singleton tr₂ e ih =>
    intro halways hcalm
    have hsplit : tr₁ ++ (l, some p) :: (tr₂ ++ [e]) = (tr₁ ++ (l, some p) :: tr₂) ++ [e] := by simp
    rw [hsplit] at halways ⊢
    obtain ⟨hbefore, hlast⟩ := always_snoc.mp halways
    have hleft := ih hbefore fun e' he' => hcalm e' (List.mem_append_left _ he')
    rw [lastLeft_snoc, keep]
    split
    case h_1 q hq =>
      obtain ⟨hsome, hx⟩ := Option.filter_eq_some_iff.mp hq
      have hbuf : q.buffer = p.buffer := by simpa using hx
      exact congrArg some (hlast q hsome _ (hbuf ▸ hleft))
    case h_2 => rw [hcalm e (by simp), hleft]; rfl

/-- It is enough to compare a present with the one before it. -/
theorem neverAgain_iff_always {tr : List (Label × Option Pass)} :
    NeverAgain tr ↔ Always KeepsLast tr := by
  constructor
  · rintro h tr₁ l o tr₂ rfl p rfl b hb
    obtain ⟨tr₃, l', p', tr₄, rfl, hx, rfl, hcalm⟩ := exists_of_lastLeft hb
    exact h tr₃ l' p' tr₄ l p tr₂ (by simp) hx (hx ▸ hcalm)
  · rintro h tr₁ l₁ p₁ tr₂ l₂ p₂ tr₃ rfl hx hcalm
    have hlater : Always KeepsLast (tr₁ ++ (l₁, some p₁) :: tr₂) :=
      Always.of_append (show Always KeepsLast (_ ++ (l₂, some p₂) :: tr₃) by simpa using h)
    have hleft := lastLeft_of_calm hlater hcalm
    exact h (tr₁ ++ (l₁, some p₁) :: tr₂) l₂ _ tr₃ (by simp) p₂ rfl _ (hx ▸ hleft)

/-! ### Every run -/

variable {size : ℕ → ℕ} {openFds : Int → Option ℕ} {pixels : ℕ → List UInt8}

/-- The invariant of every run: an undrawn picture is still what its last present left, and its
hash is known. -/
structure Remembers (size : ℕ → ℕ) (tr : List (Label × Option Pass)) (w : Process) : Prop where
  flags : Flags flags w.shim
  pixels : ∀ x, ∀ b ∈ lastLeft x tr, w.shim.pixels x = b
  left : ∀ x, w.left x = (lastLeft x tr).map fun b => (process b (size x) false).2

theorem remembers_start : Remembers size [] (start openFds pixels) :=
  ⟨flags_loaded _ _ _, by simp, fun _ => rfl⟩

theorem draws_of_picture {s : State} {l : Label} {p : Picture} (h : picture s l = some p) (x : ℕ) :
    l.draws x = false := by
  cases l <;> first | rfl | cases h

/-- **One step** keeps it. -/
theorem Remembers.step {tr : List (Label × Option Pass)} {w w' : Process} {l : Label}
    {o : Option Pass} (h : Remembers size tr w) (hstep : step size w l = some (w', o)) :
    Remembers size (tr ++ [(l, o)]) w' := by
  obtain ⟨e, hf⟩ := step_cases h.flags hstep
  cases e with
  | quiet calm nothing pixels =>
    have hlast : ∀ x, lastLeft x (tr ++ [(l, none)]) = lastLeft x tr := fun x => by simp [calm]
    exact ⟨hf, fun x b hb => by rw [pixels]; exact h.pixels x b (hlast x ▸ hb),
      fun x => by rw [hlast]; exact h.left x⟩
  | @drew y bytes =>
    refine ⟨hf, fun x b hb => ?_, fun x => ?_⟩ <;> by_cases hx : y = x
    · simp [Label.draws, hx] at hb
    · have hkept := h.pixels x b (by simpa [Label.draws, hx] using hb)
      rwa [← Function.update_of_ne (Ne.symm hx) bytes w.shim.pixels] at hkept
    · simp [Label.draws, hx]
    · simpa [Label.draws, hx, Function.update_of_ne (Ne.symm hx)] using h.left x
  | @passed _ p s shown hsize done =>
    refine ⟨hf, fun x b hb => ?_, fun x => ?_⟩ <;> by_cases hx : p.buffer = x
    · simpa [hx] using hb
    · rw [done.of_some.2, Function.update_of_ne (Ne.symm hx)]
      exact h.pixels x b (by simpa [hx, draws_of_picture shown] using hb)
    · subst hx
      simp [hsize]
    · simpa [hx, draws_of_picture shown, Function.update_of_ne (Ne.symm hx)] using h.left x

theorem remembers_of_run {tr : List (Label × Option Pass)} {w : Process}
    (h : Run (step size) (start openFds pixels) tr w) : Remembers size tr w :=
  h.invariant remembers_start fun hw _ hstep => hw.step hstep

/-- A present leaves the picture as the last one did exactly when it is recognised. -/
theorem keepsLast_iff {tr : List (Label × Option Pass)} {w w' : Process} {l : Label}
    {o : Option Pass} (h : Remembers size tr w) (hstep : Recolor.step size w l = some (w', o)) :
    KeepsLast tr l o ↔ Recognised w l := by
  obtain ⟨e, -⟩ := step_cases h.flags hstep
  cases e with
  | quiet calm nothing pixels => simp [KeepsLast, Recognised, nothing]
  | drew => simp [KeepsLast, Recognised, picture]
  | @passed _ p s shown hsize done =>
    obtain ⟨fits, pixels⟩ := done.of_some
    have hpix : s.pixels p.buffer =
        if w.shim.fdHash p.fd = (process (w.shim.pixels p.buffer) p.npix false).2 then
          w.shim.pixels p.buffer else turnPixels p.npix (w.shim.pixels p.buffer) := by
      rw [pixels, Function.update_self]
    simp only [KeepsLast, Recognised, shown, Option.mem_some_iff, forall_eq', h.left, hpix,
      Option.mem_map, forall_exists_index, and_imp, forall_apply_eq_imp_iff₂, ← hsize]
    refine forall₂_congr fun b hb => ?_
    rw [← h.pixels p.buffer b hb]
    split_ifs with hknown
    · simp [hknown]
    · rw [turnPixels_eq_self_iff fits]
      simp [hknown]

/-- **A picture is never turned again exactly in the runs that recognise it**: every present of a
picture that nobody has drawn since its last one finds the hash that was left under the number it
is mapped through, or a grey picture. -/
theorem never_again_iff {tr : List (Label × Option Pass)} {w : Process}
    (h : Run (step size) (start openFds pixels) tr w) :
    NeverAgain tr ↔ RunWhere (step size) Recognised (start openFds pixels) tr w := by
  rw [neverAgain_iff_always]
  refine h.always_iff ?_
  intro tr w l w' o hrun hstep
  exact keepsLast_iff (remembers_of_run hrun) hstep

/-- Number 4 is buffer 0; the numbers below it are something else. -/
def oneBuffer (fd : Int) : Option ℕ :=
  if fd = 4 then some 0 else if 0 ≤ fd ∧ fd < 4 then some 1 else none

/-- A coloured pixel in every buffer. -/
def onePixel : ℕ → List UInt8 := fun _ => [1, 2, 3, 4]

/-- The whole of a one-pixel screen, at `phys`. -/
def pixelAt (phys : UInt32) : OvSetting :=
  ⟨sprdLayerOsd, sprdDataFormatRgb888, 0, 0, 0, ⟨0, 0, 1, 1⟩, phys⟩

/-- Two presents after one recording. -/
theorem never_again_iff_twice :
    let tr : List (Label × Option Pass) :=
      [(.record 0x9ffcc000 4 4 5, none),
        (.presentOsd true (pixelAt 0x9ffcc000), some ⟨0, [2, 3, 1, 4]⟩),
        (.presentOsd true (pixelAt 0x9ffcc000), some ⟨0, [2, 3, 1, 4]⟩)]
    ∃ w, NeverAgain tr ↔
      RunWhere (step fun _ => 1) Recognised (start oneBuffer onePixel) tr w := by
  intro tr
  have hexec : (exec (step fun _ => 1) (fun _ _ => True) (start oneBuffer onePixel)
      (tr.map Prod.fst)).map Prod.fst = some tr := by decide +kernel
  obtain ⟨⟨tr', w⟩, hw, rfl⟩ := Option.map_eq_some_iff.mp hexec
  exact ⟨w, never_again_iff (run_of_exec hw)⟩

/-- The address is recorded again, and `dup` returns a number closed in the meantime: the pixel is
turned a second time. -/
theorem never_again_not_always :
    ¬ ∀ (size : ℕ → ℕ) (openFds : Int → Option ℕ) (pixels : ℕ → List UInt8)
      (tr : List (Label × Option Pass)) (w : Process),
        Run (step size) (start openFds pixels) tr w → NeverAgain tr := by
  intro hall
  let tr : List (Label × Option Pass) :=
    [(.record 0x9ffcc000 4 4 5, none),
      (.presentOsd true (pixelAt 0x9ffcc000), some ⟨0, [2, 3, 1, 4]⟩),
      (.closeFd 3, none), (.record 0x9ffcc000 4 4 3, none),
      (.presentOsd true (pixelAt 0x9ffcc000), some ⟨0, [3, 1, 2, 4]⟩)]
  have hexec : (exec (step fun _ => 1) (fun _ _ => True) (start oneBuffer onePixel)
      (tr.map Prod.fst)).map Prod.fst = some tr := by decide +kernel
  obtain ⟨⟨tr', w⟩, hw, rfl⟩ := Option.map_eq_some_iff.mp hexec
  have hnever := hall _ _ _ _ w (run_of_exec hw)
  have hsame := hnever [(.record 0x9ffcc000 4 4 5, none)] (.presentOsd true (pixelAt 0x9ffcc000))
    ⟨0, [2, 3, 1, 4]⟩ [(.closeFd 3, none), (.record 0x9ffcc000 4 4 3, none)]
    (.presentOsd true (pixelAt 0x9ffcc000)) ⟨0, [3, 1, 2, 4]⟩ [] rfl rfl (by decide)
  revert hsame
  decide

end Recolor

end A1000

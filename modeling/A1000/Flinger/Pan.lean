import A1000.Lib.Bytes
import A1000.Lib.Run
import Mathlib.Data.Nat.ModEq

/-!
# Panning the framebuffer

gralloc copies every frame into the first buffer of the framebuffer. `a1000_panFramebuffer` copies
it on into another buffer and asks the kernel to scan that one out; the buffers from the second to
the last one take turns, whether or not the kernel has obeyed.

The mode is the default one: double buffering on, flipping off, and the framebuffer is mapped.

## Main definitions

* `Pan.panFramebuffer` — one call
* `Pan.Clean` — what is wanted of a call
* `Pan.sinceShown` — the number of copies since the last one that was shown

## Main results

* `Pan.clean_iff` — the calls that copy into the buffer on screen
-/

namespace A1000

namespace Pan

open Bytes StepSystem

/-! ### The framebuffer -/

/-- The framebuffer as it was mapped: it has room for two frames at least. -/
structure Framebuffer where
  smem : Bytes
  frameBytes : ℕ
  buffers : ℕ
  two_le : 2 ≤ buffers
  room : buffers * frameBytes ≤ smem.length

/-- The memory, `nextBuf`, and the buffer that is scanned out. -/
structure Screen where
  smem : Bytes
  nextBuf : ℕ
  displayed : ℕ
  deriving DecidableEq, Repr

/-- Nothing has been shown yet. -/
def Framebuffer.initial (fb : Framebuffer) : Screen := ⟨fb.smem, 0, 0⟩

/-- A call: the frame that gralloc has copied into the first buffer before it, and which of the
requests `FBIOGET_VSCREENINFO` and `FBIOPAN_DISPLAY` succeed. -/
structure PanCall where
  frame : Bytes
  vscreeninfo : Bool
  pan : Bool
  deriving DecidableEq, Repr

/-- A copy: where it went, which buffer was scanned out meanwhile, what was copied, and what is
scanned out after the call. -/
structure Panned where
  dest : ℕ
  scanned : ℕ
  source : Bytes
  shown : Bytes
  deriving DecidableEq, Repr

/-- `memcpy` to the offset `i`. -/
def memcpy (mem : Bytes) (i : ℕ) (src : Bytes) : Bytes := setSlice mem i (i + src.length) src

/-- What the buffer number `n` holds. -/
def Framebuffer.buffer (fb : Framebuffer) (mem : Bytes) (n : ℕ) : Bytes :=
  slice mem (n * fb.frameBytes) (n * fb.frameBytes + fb.frameBytes)

/-- `a1000_panFramebuffer`, after gralloc. -/
def panFramebuffer (fb : Framebuffer) (s : Screen) (c : PanCall) :
    Option (Screen × Option Panned) :=
  let mem := memcpy s.smem 0 (c.frame.take fb.frameBytes)
  if c.vscreeninfo then
    let nextBuf := 1 + s.nextBuf % (fb.buffers - 1)
    let source := slice mem 0 fb.frameBytes
    let mem := memcpy mem (nextBuf * fb.frameBytes) source
    let displayed := if c.pan then nextBuf else s.displayed
    some (⟨mem, nextBuf, displayed⟩,
      some ⟨nextBuf, s.displayed, source, fb.buffer mem displayed⟩)
  else some ({ s with smem := mem }, none)

/-! ### What is wanted -/

abbrev History := List (PanCall × Option Panned)

/-- **Nothing is copied into the first buffer or the one on screen**, and what is shown after a
successful call is what the first buffer held. -/
def Clean (c : PanCall) (out : Option Panned) : Prop :=
  ∀ p, out = some p → p.dest ≠ 0 ∧ p.dest ≠ p.scanned ∧ (c.pan = true → p.shown = p.source)

/-- One more call. -/
def since (n : Option ℕ) (e : PanCall × Option Panned) : Option ℕ :=
  match e.2 with
  | none => n
  | some _ => if e.1.pan then some 0 else n.map (· + 1)

/-- The number of copies after the last one that was shown, if one was. -/
def sinceShown (tr : History) : Option ℕ := tr.foldl since none

/-- The turn comes round to the buffer on screen. -/
def Due (fb : Framebuffer) (tr : History) : Prop :=
  ∃ n, sinceShown tr = some n ∧ fb.buffers - 1 ∣ n + 1

/-! ### What a call does -/

/-- The invariant: where the turn is, told from the number of copies since the last one shown. -/
structure Follows (fb : Framebuffer) (tr : History) (s : Screen) : Prop where
  room : fb.buffers * fb.frameBytes ≤ s.smem.length
  unshown : sinceShown tr = none → s.displayed = 0
  shown : ∀ n, sinceShown tr = some n → 1 ≤ s.displayed ∧ s.displayed ≤ fb.buffers - 1 ∧
    s.nextBuf = 1 + (s.displayed - 1 + n) % (fb.buffers - 1)

theorem sinceShown_snoc (tr : History) (e : PanCall × Option Panned) :
    sinceShown (tr ++ [e]) = since (sinceShown tr) e := by
  rw [sinceShown, List.foldl_append]
  rfl

theorem length_memcpy {mem src : Bytes} {i : ℕ} (h : i + src.length ≤ mem.length) :
    (memcpy mem i src).length = mem.length :=
  length_setSlice mem h (Nat.le_add_right ..) (by omega)

theorem slice_memcpy {mem src : Bytes} {i n : ℕ} (hn : src.length = n) (h : i + n ≤ mem.length) :
    slice (memcpy mem i src) i (i + n) = src := by
  subst hn
  exact slice_setSlice h (Nat.le_add_right ..) (by omega)

/-- Each buffer lies in the memory. -/
theorem Framebuffer.buffer_le {fb : Framebuffer} {n len : ℕ} (hn : n < fb.buffers)
    (room : fb.buffers * fb.frameBytes ≤ len) : n * fb.frameBytes + fb.frameBytes ≤ len := by
  calc n * fb.frameBytes + fb.frameBytes = (n + 1) * fb.frameBytes := by ring
    _ ≤ fb.buffers * fb.frameBytes := Nat.mul_le_mul_right _ hn
    _ ≤ len := room

/-- The next turn. -/
theorem next_turn (m d n : ℕ) :
    1 + (1 + (d - 1 + n) % m) % m = 1 + (d - 1 + (n + 1)) % m := by
  rw [Nat.add_comm 1 ((d - 1 + n) % m), Nat.mod_add_mod, Nat.add_assoc]

/-- When the turn comes round. -/
theorem turn_eq_iff {m d n : ℕ} (hd : 1 ≤ d) (hm : d ≤ m) :
    1 + (d - 1 + (n + 1)) % m = d ↔ m ∣ n + 1 := by
  have hself : (d - 1) % m = d - 1 := Nat.mod_eq_of_lt (by omega)
  rw [← Nat.add_modEq_left_iff (a := d - 1), Nat.ModEq, hself]
  omega

/-- **What a call returns.** -/
theorem panFramebuffer_spec {fb : Framebuffer} {s t : Screen} {c : PanCall} {out : Option Panned}
    (room : fb.buffers * fb.frameBytes ≤ s.smem.length)
    (h : panFramebuffer fb s c = some (t, out)) :
    t.smem.length = s.smem.length ∧
      (c.vscreeninfo = false ∧ out = none ∧ t.nextBuf = s.nextBuf ∧ t.displayed = s.displayed ∨
        c.vscreeninfo = true ∧ ∃ p, out = some p ∧ p.dest = 1 + s.nextBuf % (fb.buffers - 1) ∧
          p.scanned = s.displayed ∧ t.nextBuf = p.dest ∧
            t.displayed = (if c.pan then p.dest else s.displayed) ∧
              (c.pan = true → p.shown = p.source)) := by
  have htwo := fb.two_le
  have hfirst : 0 * fb.frameBytes + fb.frameBytes ≤ s.smem.length :=
    Framebuffer.buffer_le (by omega) room
  have hframe : (memcpy s.smem 0 (c.frame.take fb.frameBytes)).length = s.smem.length := by
    refine length_memcpy ?_
    have := List.length_take_le fb.frameBytes c.frame
    omega
  rw [panFramebuffer] at h
  by_cases hinfo : c.vscreeninfo = true
  · rw [if_pos hinfo] at h
    have hdest : 1 + s.nextBuf % (fb.buffers - 1) < fb.buffers := by
      have := Nat.mod_lt s.nextBuf (show 0 < fb.buffers - 1 by omega)
      omega
    have hbuf := Framebuffer.buffer_le hdest room
    have hsource : (slice (memcpy s.smem 0 (c.frame.take fb.frameBytes)) 0 fb.frameBytes).length =
        fb.frameBytes := by
      rw [length_slice, hframe]
      omega
    obtain ⟨rfl, rfl⟩ := Prod.mk.inj (Option.some.inj h)
    refine ⟨?_, .inr ⟨hinfo, _, rfl, rfl, rfl, rfl, rfl, fun hpan => ?_⟩⟩
    · rw [← hframe]
      exact length_memcpy (by rw [hsource, hframe]; exact hbuf)
    · simp only [hpan, if_true, Framebuffer.buffer]
      exact slice_memcpy hsource (by rw [hframe]; exact hbuf)
  · rw [if_neg hinfo] at h
    obtain ⟨rfl, rfl⟩ := Prod.mk.inj (Option.some.inj h)
    exact ⟨hframe, .inl ⟨Bool.eq_false_iff.mpr hinfo, rfl, rfl, rfl⟩⟩

/-- **A call keeps the invariant.** -/
theorem Follows.call {fb : Framebuffer} {tr : History} {s t : Screen} {c : PanCall}
    {out : Option Panned} (hs : Follows fb tr s) (h : panFramebuffer fb s c = some (t, out)) :
    Follows fb (tr ++ [(c, out)]) t := by
  obtain ⟨hlen, hcall⟩ := panFramebuffer_spec hs.room h
  have htwo := fb.two_le
  obtain ⟨room, unshown, shown⟩ := hs
  rw [← hlen] at room
  rcases hcall with ⟨-, rfl, hnext, hdisp⟩ | ⟨-, p, rfl, hdest, -, hnext, hdisp, -⟩
  · refine ⟨room, fun hnone => ?_, fun n hn => ?_⟩ <;> rw [sinceShown_snoc, since] at *
    · rw [hdisp, unshown hnone]
    · rw [hdisp, hnext]
      exact shown n hn
  · have hlt := Nat.mod_lt s.nextBuf (show 0 < fb.buffers - 1 by omega)
    cases hpan : c.pan with
    | true =>
      rw [hpan, if_pos rfl] at hdisp
      refine ⟨room, fun hnone => ?_, fun n hn => ?_⟩
      · simp [sinceShown_snoc, since, hpan] at hnone
      · obtain rfl : 0 = n := by simpa [sinceShown_snoc, since, hpan] using hn
        rw [hdisp, hnext, hdest, Nat.add_zero, Nat.add_sub_cancel_left, Nat.mod_mod]
        omega
    | false =>
      rw [hpan, if_neg Bool.false_ne_true] at hdisp
      refine ⟨room, fun hnone => ?_, fun n hn => ?_⟩
      · rw [hdisp, unshown (by simpa [sinceShown_snoc, since, hpan] using hnone)]
      · simp only [sinceShown_snoc, since, hpan, Bool.false_eq_true, if_false,
          Option.map_eq_some_iff] at hn
        obtain ⟨k, hk, rfl⟩ := hn
        obtain ⟨hpos, hle, hturn⟩ := shown k hk
        rw [hdisp, hnext, hdest, hturn, next_turn]
        exact ⟨hpos, hle, rfl⟩

theorem follows_of_run {fb : Framebuffer} {tr : History} {s : Screen}
    (h : Run (panFramebuffer fb) fb.initial tr s) : Follows fb tr s := by
  refine h.invariant ⟨fb.room, fun _ => rfl, fun n hn => ?_⟩ fun hs _ hstep => hs.call hstep
  cases hn

/-- **A call is clean** unless the turn has come round to the buffer on screen. -/
theorem clean_iff_not_due {fb : Framebuffer} {tr : History} {s t : Screen} {c : PanCall}
    {out : Option Panned} (hs : Follows fb tr s) (h : panFramebuffer fb s c = some (t, out)) :
    Clean c out ↔ (c.vscreeninfo = true → ¬ Due fb tr) := by
  obtain ⟨-, hcall⟩ := panFramebuffer_spec hs.room h
  rcases hcall with ⟨hinfo, rfl, -, -⟩ | ⟨hinfo, p, rfl, hdest, hscanned, -, -, hshown⟩
  · exact iff_of_true (by simp [Clean]) (by simp [hinfo])
  · have hclean : Clean c (some p) ↔ p.dest ≠ p.scanned := by
      refine ⟨fun h => (h p rfl).2.1, fun h q hq => ?_⟩
      cases hq
      exact ⟨by omega, h, hshown⟩
    rw [hclean, hinfo, hdest, hscanned, Due]
    simp only [forall_const, not_exists, not_and]
    cases hn : sinceShown tr with
    | none =>
      rw [hs.unshown hn]
      exact iff_of_true (by omega) (by simp)
    | some n =>
      obtain ⟨hpos, hle, hturn⟩ := hs.shown n hn
      rw [hturn, next_turn, ne_eq, turn_eq_iff hpos hle]
      simp

/-- **The calls that copy into the buffer on screen** are those whose number, counted from the last
one that was shown, is a multiple of the number of buffers that take turns. -/
theorem clean_iff {fb : Framebuffer} {tr : History} {s : Screen}
    (h : Run (panFramebuffer fb) fb.initial tr s) :
    Always (fun _ c out => Clean c out) tr ↔
      Always (fun tr c _ => c.vscreeninfo = true → ¬ Due fb tr) tr :=
  h.always_congr fun hrun hstep => clean_iff_not_due (follows_of_run hrun) hstep

/-- Three buffers of one byte. -/
def threeBuffers : Framebuffer := ⟨[0, 0, 0], 1, 3, by decide, by decide⟩

/-- Two buffers of one byte. -/
def twoBuffers : Framebuffer := ⟨[0, 0], 1, 2, by decide, by decide⟩

/-- Of three buffers the two in use take turns; a call that fails in between puts them out of
step. -/
theorem clean_iff_three :
    let tr : History := [(⟨[1], true, true⟩, some ⟨1, 0, [1], [1]⟩),
      (⟨[2], true, false⟩, some ⟨2, 1, [2], [1]⟩), (⟨[3], true, true⟩, some ⟨1, 1, [3], [3]⟩)]
    Always (fun _ c out => Clean c out) tr ↔
      Always (fun tr c _ => c.vscreeninfo = true → ¬ Due threeBuffers tr) tr := by
  intro tr
  have hexec : exec (panFramebuffer threeBuffers) (fun _ _ => True) threeBuffers.initial
      (tr.map Prod.fst) = some (tr, ⟨[3, 3, 2], 1, 1⟩) := by
    decide
  exact clean_iff (run_of_exec hexec)

/-- With two buffers the second frame is copied into the buffer on screen. -/
theorem clean_not_always :
    ¬ ∀ (fb : Framebuffer) (tr : History) (s : Screen),
      Run (panFramebuffer fb) fb.initial tr s → Always (fun _ c out => Clean c out) tr := by
  intro hall
  have hexec : exec (panFramebuffer twoBuffers) (fun _ _ => True) twoBuffers.initial
      [⟨[1], true, true⟩, ⟨[2], true, true⟩] =
        some ([(⟨[1], true, true⟩, some ⟨1, 0, [1], [1]⟩),
          (⟨[2], true, true⟩, some ⟨1, 1, [2], [2]⟩)], ⟨[2, 2], 1, 1⟩) := by
    decide
  have hclean := hall _ _ _ (run_of_exec hexec) [_] _ _ [] rfl _ rfl
  exact hclean.2.1 rfl

end Pan

end A1000

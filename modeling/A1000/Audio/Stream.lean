import A1000.Audio.Pcm

/-!
# What goes in comes out

What a playback stream has been given and what the device plays are the same, in the same order, and
what a capture stream is read from it is what the device has recorded: between the two lies what is
in the ring. For playback this holds as long as the room in the ring is not asked for while it is
full and the pointer of the application alone has wrapped around: `pcm_mmap_playback_avail` then
takes the ring for an empty one, and what has not been played is overwritten.

## Main definitions

* `Audio.pending` — what is in the ring
* `Audio.current`, `Audio.whole` — what has been dealt with of the call that is going on, and of a
  call that has returned
* `Audio.Clear`, `Audio.Kept` — the runs in which nothing is overwritten

## Main results

* `Audio.playback_fifo`, `Audio.capture_fifo`
* `Audio.playback_room` — what `pcm_mmap_playback_avail` returns
-/

namespace A1000

namespace Audio

open Ring StepSystem

variable (cfg : Config)

/-- What is in the ring, between the pointer of its reader and that of its writer. -/
def pending (s : Pcm) : List UInt8 :=
  if cfg.isIn then
    slice s.mmapBuffer cfg.bufferBytes (s.applPtr % cfg.bufferSize * cfg.frameBytes)
      ((captureAvail cfg s).toNat * cfg.frameBytes)
  else
    slice s.mmapBuffer cfg.bufferBytes (s.hwPtr % cfg.bufferSize * cfg.frameBytes)
      (queued cfg s * cfg.frameBytes)

/-- The bytes of the call that have been copied and committed. -/
def current : Phase → List UInt8
  | .idle | .failed => []
  | .transfer c => c.buf.take (c.offset * cfg.frameBytes)
  | .areas c a | .begun c a _ _ | .copied c a _ => c.buf.take (a.offset * cfg.frameBytes)

/-- The frames of a buffer. -/
def whole (buf : List UInt8) : List UInt8 :=
  buf.take (cfg.bytesToFrames buf.length * cfg.frameBytes)

/-- What the calls have returned so far, oldest first. -/
def returns (tr : List (Input × Return)) : List (ℤ × List UInt8) := tr.filterMap (·.2)

/-- The call is about to ask for the room in the ring. -/
def Phase.asks : Phase → Bool
  | .transfer c => 0 < c.count
  | _ => false

/-- Nobody asks for the room in a ring that is full and has wrapped around. The size of a buffer
fits an `int`. -/
def Clear (s : Pcm) : Input → Prop
  | .call buf => buf.length ≤ intMax
  | .go _ => s.phase.asks = true → ¬ FullWrapped cfg s
  | .tick _ => True

instance (s : Pcm) (i : Input) : Decidable (Clear cfg s i) :=
  match i with
  | .call buf => inferInstanceAs (Decidable (buf.length ≤ intMax))
  | .go _ => inferInstanceAs (Decidable (_ → _))
  | .tick _ => inferInstanceAs (Decidable True)

/-- The device does not record into a full ring. -/
def Kept (s : Pcm) : Input → Prop
  | .call buf => buf.length ≤ intMax
  | .go _ => True
  | .tick _ => captureAvail cfg s < cfg.bufferSize

instance (s : Pcm) (i : Input) : Decidable (Kept cfg s i) :=
  match i with
  | .call buf => inferInstanceAs (Decidable (buf.length ≤ intMax))
  | .go _ => inferInstanceAs (Decidable True)
  | .tick _ => inferInstanceAs (Decidable (_ < _))

/-! ### The call that is going on -/

/-- A call and its buffer: what is left is what has not been dealt with. -/
structure CallOk (c : Call) : Prop where
  small : c.buf.length ≤ intMax
  frames : c.offset + c.count = cfg.bytesToFrames c.buf.length

/-- The locals of the two loops; `room` is what the outer loop has found. -/
structure AreasOk (c : Call) (a : Areas) (room : ℕ) : Prop extends CallOk cfg c where
  offset_eq : a.offset = c.offset + a.count
  count_le : a.count + a.size ≤ c.count
  size_le : a.size ≤ room

section Calls

variable {cfg} {c : Call} {a : Areas} {room : ℕ}

theorem CallOk.bytes_le (h : CallOk cfg c) {frames : ℕ} (hle : frames ≤ c.offset + c.count) :
    frames * cfg.frameBytes ≤ c.buf.length :=
  (Nat.mul_le_mul_right _ (hle.trans_eq h.frames)).trans (Nat.div_mul_le_self _ _)

theorem framesToBytes_of_le {frames n : ℕ} (hle : frames * cfg.frameBytes ≤ n)
    (hn : n ≤ intMax) : cfg.framesToBytes frames = frames * cfg.frameBytes := by
  rw [Config.framesToBytes, Nat.mod_eq_of_lt]
  have hint : intMax = 2147483647 := rfl
  omega

/-- A part of the ring is addressed without an overflow. -/
theorem framesToBytes_of_le_buffer {frames : ℕ} (h : frames ≤ cfg.bufferSize) :
    cfg.framesToBytes frames = frames * cfg.frameBytes :=
  framesToBytes_of_le (Nat.mul_le_mul_right _ h) cfg.mapped

theorem CallOk.framesToBytes (h : CallOk cfg c) {frames : ℕ} (hle : frames ≤ c.offset + c.count) :
    cfg.framesToBytes frames = frames * cfg.frameBytes :=
  framesToBytes_of_le (h.bytes_le hle) h.small

theorem AreasOk.offset_le (h : AreasOk cfg c a room) {frames : ℕ} (hle : frames ≤ a.size) :
    a.offset + frames ≤ c.offset + c.count := by
  have h₁ := h.offset_eq
  have h₂ := h.count_le
  omega

theorem AreasOk.mono (h : AreasOk cfg c a room) {room' : ℕ} (hle : room ≤ room') :
    AreasOk cfg c a room' where
  toCallOk := h.toCallOk
  offset_eq := h.offset_eq
  count_le := h.count_le
  size_le := h.size_le.trans hle

/-- What the inner loop does in a turn. -/
theorem AreasOk.commit (h : AreasOk cfg c a room) {frames : ℕ} (hle : frames ≤ a.size) :
    AreasOk cfg c ⟨a.offset + frames, a.size - frames, a.count + frames⟩ (room - frames) where
  toCallOk := h.toCallOk
  offset_eq := by
    have h₁ := h.offset_eq
    dsimp only
    omega
  count_le := by
    have h₂ := h.count_le
    dsimp only
    omega
  size_le := Nat.sub_le_sub_right h.size_le frames

/-- The cell of a frame. -/
theorem mul_mod_bufferBytes (i : ℕ) :
    i * cfg.frameBytes % cfg.bufferBytes = i % cfg.bufferSize * cfg.frameBytes :=
  Nat.mul_mod_mul_right _ _ _

theorem slice_frame (mem : ℕ → UInt8) (i len : ℕ) :
    slice mem cfg.bufferBytes (i % cfg.bufferSize * cfg.frameBytes) len =
      slice mem cfg.bufferBytes (i * cfg.frameBytes) len := by
  rw [← mul_mod_bufferBytes, slice_mod]

/-- Frames up to the end of the ring. -/
theorem frames_le_end {i frames : ℕ} (h : frames ≤ cfg.bufferSize - i % cfg.bufferSize) :
    frames * cfg.frameBytes ≤ cfg.bufferBytes - i * cfg.frameBytes % cfg.bufferBytes := by
  rw [mul_mod_bufferBytes, Config.bufferBytes, ← Nat.sub_mul]
  exact Nat.mul_le_mul_right _ h

/-- **A turn of the outer loop** of a call, when what is available is the room in the ring: it
fails, or everything has been dealt with, or it has waited, or it goes on to copy. With a bad
threshold it may also give up. -/
inductive Turn (cfg : Config) (s : Pcm) (c : Call) (t : Pcm) : Return → Prop
  | failed {r : ℤ} (hfail : t.phase = .failed) : Turn cfg s c t (some (r, c.buf))
  | done (hcount : c.count = 0)
      (ht : t = { s with phase := .idle,
                         passed := s.passed ++ c.buf.take (cfg.framesToBytes c.offset) }) :
      Turn cfg s c t (some (0, c.buf))
  | stopped (p r w : Bool) (hbad : cfg.availMin ≤ 0 ∨ cfg.bufferSize < cfg.startThreshold)
      (ht : t = { s with prepared := p, running := r, waitForAvailMin := w, phase := .idle,
                         passed := s.passed ++ c.buf.take (cfg.framesToBytes c.offset) }) :
      Turn cfg s c t (some (0, c.buf))
  | waited (err : ℤ) (p r w : Bool)
      (ht : t = { s with prepared := p, running := r, waitForAvailMin := w,
                         phase := .transfer { c with err := err } }) : Turn cfg s c t none
  | copies (n : ℕ) (p r w : Bool) (hpos : 0 < n) (hle : n ≤ c.count)
      (havail : (n : ℤ) ≤ mmapAvail cfg s)
      (ht : t = { s with prepared := p, running := r, waitForAvailMin := w,
                         phase := .areas c ⟨c.offset, n, 0⟩ }) : Turn cfg s c t none

variable {s t : Pcm} {k : Answers} {o : Return}

/-- The end of a turn. -/
theorem turn_transferFrames {p r w : Bool} {avail : ℤ} (havail : avail = mmapAvail cfg s)
    (hnonneg : 0 ≤ avail) (hcount : 0 < c.count)
    (hbad : avail = 0 → cfg.availMin ≤ 0 ∨ cfg.bufferSize < cfg.startThreshold)
    (h : Pcm.transferFrames cfg { s with prepared := p, running := r, waitForAvailMin := w } c
      avail = (t, o)) : Turn cfg s c t o := by
  unfold Pcm.transferFrames at h
  dsimp only at h
  split at h
  · cases h
    exact .stopped p r w (hbad (by omega)) rfl
  · cases h
    exact .copies (min (c.count : ℤ) avail).toNat p r w (by omega) (by omega) (by omega) rfl

theorem turn_transferRunning {p w : Bool} {avail : ℤ} (havail : avail = mmapAvail cfg s)
    (hnonneg : 0 ≤ avail) (hcount : 0 < c.count)
    (h : Pcm.transferRunning cfg { s with prepared := p, running := true, waitForAvailMin := w } c
      avail k = (t, o)) : Turn cfg s c t o := by
  simp only [Pcm.transferRunning] at h
  split at h
  · split at h
    · cases h
      exact .failed rfl
    · cases h
      exact .waited _ p true false rfl
  · rename_i hwait
    refine turn_transferFrames havail hnonneg hcount (fun hzero => .inl ?_) h
    -- with nothing available the call would have waited
    by_contra hmin
    rw [hzero] at hwait
    have hun : asUnsigned 0 = 0 := rfl
    refine hwait ⟨?_, by omega⟩
    simp [hun, hcount]

theorem turn_transfer (hnonneg : 0 < c.count → 0 ≤ mmapAvail cfg s)
    (hle : 0 < c.count → mmapAvail cfg s ≤ cfg.bufferSize) (h : s.transfer cfg c k = (t, o)) :
    Turn cfg s c t o := by
  unfold Pcm.transfer at h
  split at h
  · rename_i hcount
    cases h
    exact .done hcount rfl
  · rename_i hcount
    have hpos : 0 < c.count := Nat.pos_of_ne_zero hcount
    have hn := hnonneg hpos
    have hl := hle hpos
    dsimp only at h
    rw [if_neg (by omega)] at h
    split at h
    · split at h
      · cases h
        rename_i u hstart
        exact .failed rfl
      · rename_i u hstart
        unfold Pcm.start at hstart
        split at hstart
        · cases hstart
        · split at hstart
          · cases hstart
          · cases hstart
            exact turn_transferRunning rfl hn hpos h
    · rename_i hdue
      split at h
      · rename_i hrun
        exact turn_transferRunning (p := s.prepared) (w := s.waitForAvailMin) rfl hn hpos
          (by rw [← hrun]; exact h)
      · rename_i hrun
        refine turn_transferFrames (p := s.prepared) (r := s.running) (w := s.waitForAvailMin) rfl
          hn hpos (fun hzero => .inr ?_) h
        -- an empty ring would have been started
        by_contra hth
        refine hdue ⟨hrun, ?_⟩
        have hsize := cfg.bufferSize_le
        have hint : intMax = 2147483647 := rfl
        have hav : (cfg.bufferSize : ℤ) - mmapAvail cfg s = (cfg.bufferSize : ℕ) := by omega
        rw [hav, asUnsigned_of_lt (by omega)]
        exact not_lt.mp hth

end Calls

/-! ### The books -/

/-- The buffers the calls were given so far. -/
def called (tr : List (Input × Return)) : List (List UInt8) :=
  tr.filterMap fun e => match e.1 with
    | .call buf => some buf
    | _ => none

/-- The buffer of the call that is going on. -/
def Phase.buf : Phase → Option (List UInt8)
  | .idle | .failed => none
  | .transfer c | .areas c _ | .begun c _ _ _ | .copied c _ _ => some c.buf

/-- What has been returned: no errors, and what has been passed on. -/
structure Booked (tr : List (Input × Return)) (s : Pcm) : Prop where
  passed : s.passed = (returns tr).flatMap fun r => whole cfg r.2
  ok : ∀ r ∈ returns tr, r.1 = 0

section Books

variable {cfg} {tr : List (Input × Return)} {s t : Pcm} {i : Input}

theorem returns_snoc (o : Return) : returns (tr ++ [(i, o)]) = returns tr ++ o.toList := by
  cases o <;> simp [returns]

theorem called_snoc_call (buf : List UInt8) (o : Return) :
    called (tr ++ [(.call buf, o)]) = called tr ++ [buf] := by
  simp [called]

theorem called_snoc_go (k : Answers) (o : Return) : called (tr ++ [(.go k, o)]) = called tr := by
  simp [called]

theorem called_snoc_tick (frame : List UInt8) (o : Return) :
    called (tr ++ [(.tick frame, o)]) = called tr := by
  simp [called]

/-- A step that returns nothing. -/
theorem Booked.silent (h : Booked cfg tr s) (ht : t.passed = s.passed) :
    Booked cfg (tr ++ [(i, none)]) t := by
  constructor
  · rw [returns_snoc, ht, h.passed, Option.toList_none, List.append_nil]
  · rw [returns_snoc, Option.toList_none, List.append_nil]
    exact h.ok

/-- A call that has been dealt with. -/
theorem Booked.done (h : Booked cfg tr s) {buf : List UInt8}
    (ht : t.passed = s.passed ++ whole cfg buf) : Booked cfg (tr ++ [(i, some (0, buf))]) t := by
  constructor
  · rw [returns_snoc, ht, h.passed, Option.toList_some, List.flatMap_append]
    simp
  · intro r hr
    rw [returns_snoc, List.mem_append] at hr
    rcases hr with hr | hr
    · exact h.ok r hr
    · rw [Option.toList_some, List.mem_singleton] at hr
      rw [hr]

theorem CallOk.whole_eq {c : Call} (h : CallOk cfg c) (hcount : c.count = 0) :
    c.buf.take (cfg.framesToBytes c.offset) = whole cfg c.buf := by
  rw [h.framesToBytes (Nat.le_add_right _ _), whole, ← h.frames, hcount, Nat.add_zero]

theorem booked_prepared (mem : ℕ → UInt8) : Booked cfg [] (prepared mem) :=
  ⟨rfl, by simp [returns]⟩

end Books

/-! ### Playback -/

/-- Where the caller is, when the device is at the frame `h` and `k` frames are in the ring. -/
def PlayPhase (mem : ℕ → UInt8) (h k : ℕ) : Phase → Prop
  | .idle | .failed => True
  | .transfer c => CallOk cfg c
  | .areas c a => AreasOk cfg c a (cfg.bufferSize - k)
  | .begun c a pcmOffset frames => AreasOk cfg c a (cfg.bufferSize - k) ∧
    pcmOffset = (h + k) % cfg.bufferSize ∧ frames ≤ a.size ∧ frames ≤ cfg.bufferSize - pcmOffset
  | .copied c a frames => AreasOk cfg c a (cfg.bufferSize - k) ∧ frames ≤ a.size ∧
    slice mem cfg.bufferBytes ((h + k) * cfg.frameBytes) (frames * cfg.frameBytes) =
      (c.buf.drop (a.offset * cfg.frameBytes)).take (frames * cfg.frameBytes)

/-- **The invariant of a playback stream**: what has been played and what is in the ring are what
has been passed on. -/
structure PlayAt (s : Pcm) (h k : ℕ) : Prop where
  ptrs : At cfg s h (h + k)
  le : k ≤ cfg.bufferSize
  stream : s.sounded ++ slice s.mmapBuffer cfg.bufferBytes (h * cfg.frameBytes)
    (k * cfg.frameBytes) = s.passed ++ current cfg s.phase
  phase : PlayPhase cfg s.mmapBuffer h k s.phase

section Playback

variable {cfg} {s t : Pcm} {h k : ℕ} {o : Return}

theorem queued_eq (hat : At cfg s h (h + k)) (hk : k ≤ cfg.bufferSize) : queued cfg s = k := by
  have htwo := cfg.two_mul_le
  have hpos := cfg.bufferSize_pos
  have hw := hat.hw
  have hlt := Nat.mod_lt h (show 0 < cfg.boundary by omega)
  unfold queued
  rcases hat.cases hk with happl | happl | ⟨rfl, hzero, happl⟩
  · rw [show s.applPtr + cfg.boundary - s.hwPtr = k + cfg.boundary by omega, Nat.add_mod_right,
      Nat.mod_eq_of_lt (by omega)]
  · rw [show s.applPtr + cfg.boundary - s.hwPtr = k by omega, Nat.mod_eq_of_lt (by omega)]
  · rw [show s.applPtr + cfg.boundary - s.hwPtr = cfg.boundary + cfg.boundary by omega,
      Nat.add_mod_right, Nat.mod_self]

/-- The device plays the frame that comes next. -/
theorem PlayAt.tick (hs : PlayAt cfg s h k) (hin : cfg.isIn = false) {frame : List UInt8}
    (hstep : s.tick cfg frame = some (t, o)) :
    ∃ j, k = j + 1 ∧ o = none ∧ t.passed = s.passed ∧ t.phase = s.phase ∧
      PlayAt cfg t (h + 1) j := by
  have htwo := cfg.two_mul_le
  have hpos := cfg.bufferSize_pos
  simp only [Pcm.tick] at hstep
  rw [hin] at hstep
  split at hstep
  · cases hstep
  · rw [if_neg (by decide)] at hstep
    split at hstep
    · cases hstep
    · rename_i hq
      rw [queued_eq hs.ptrs hs.le] at hq
      obtain ⟨j, rfl⟩ := Nat.exists_eq_succ_of_ne_zero hq
      cases hstep
      refine ⟨j, rfl, rfl, rfl, rfl, ?_⟩
      have hoff : s.hwPtr % cfg.bufferSize = h % cfg.bufferSize := by
        rw [hs.ptrs.hw, Nat.mod_mod_of_dvd _ cfg.bufferSize_dvd]
      have hframe : (List.range cfg.frameBytes).map (fun i =>
          s.mmapBuffer (s.hwPtr % cfg.bufferSize * cfg.frameBytes + i)) =
          slice s.mmapBuffer cfg.bufferBytes (h * cfg.frameBytes) cfg.frameBytes := by
        have hlt := Nat.mod_lt h hpos
        have hend : 1 * cfg.frameBytes ≤
            cfg.bufferBytes - h * cfg.frameBytes % cfg.bufferBytes := frames_le_end (by omega)
        rw [Nat.one_mul] at hend
        rw [slice_eq_of_le hend, mul_mod_bufferBytes, hoff]
      refine ⟨⟨?_, ?_⟩, (Nat.le_succ j).trans hs.le, ?_, ?_⟩
      · dsimp only
        rw [hs.ptrs.hw, Nat.mod_add_mod]
      · rw [show h + 1 + j = h + (j + 1) by omega]
        exact hs.ptrs.appl
      · have hstream := hs.stream
        rw [Nat.succ_mul, Nat.add_comm, slice_add, ← List.append_assoc] at hstream
        rw [Nat.add_mul, Nat.one_mul]
        dsimp only
        rw [hframe, hstream]
      · have hphase := hs.phase
        cases hp : s.phase with
        | idle => trivial
        | failed => trivial
        | transfer c =>
          rw [hp] at hphase
          exact hphase
        | areas c a =>
          rw [hp] at hphase
          exact AreasOk.mono hphase (by omega)
        | begun c a p f =>
          rw [hp] at hphase
          obtain ⟨hareas, hoffset, hrest⟩ := hphase
          refine ⟨hareas.mono (by omega), ?_, hrest⟩
          rw [hoffset, show h + 1 + j = h + (j + 1) by omega]
        | copied c a f =>
          rw [hp] at hphase
          obtain ⟨hareas, hle, hslice⟩ := hphase
          refine ⟨hareas.mono (by omega), hle, ?_⟩
          rw [show h + 1 + j = h + (j + 1) by omega]
          exact hslice

/-- What `pcm_mmap_begin` finds: no more than is asked for, and nothing behind the end. -/
theorem mmapBegin_le (happl : PointsTo cfg.boundary s.applPtr h) (size : ℕ) :
    (mmapBegin cfg s size).1 = h % cfg.bufferSize ∧ (mmapBegin cfg s size).2 ≤ size ∧
      (mmapBegin cfg s size).2 ≤ cfg.bufferSize - (mmapBegin cfg s size).1 := by
  refine ⟨?_, ?_, ?_⟩
  · exact happl.mod cfg.bufferSize_dvd
  · exact (Nat.min_le_left _ _).trans (Nat.min_le_left _ _)
  · exact Nat.min_le_right _ _

/-- The state after a turn of the outer loop is right, but for the pointers. -/
theorem PlayAt.congr (hs : PlayAt cfg s h k) (hhw : t.hwPtr = s.hwPtr)
    (happl : t.applPtr = s.applPtr) (hmem : t.mmapBuffer = s.mmapBuffer)
    (hsounded : t.sounded = s.sounded)
    (hpassed : t.passed ++ current cfg t.phase = s.passed ++ current cfg s.phase)
    (hphase : PlayPhase cfg s.mmapBuffer h k t.phase) : PlayAt cfg t h k where
  ptrs := ⟨hhw.trans hs.ptrs.hw, happl ▸ hs.ptrs.appl⟩
  le := hs.le
  stream := by rw [hsounded, hmem, hpassed, hs.stream]
  phase := hmem ▸ hphase

/-- **The caller's next step.** -/
theorem PlayAt.go (hs : PlayAt cfg s h k) (hin : cfg.isIn = false)
    (hclear : s.phase.asks = true → ¬ FullWrapped cfg s) {a : Answers}
    (hstep : s.go cfg a = some (t, o)) (hok : t.phase ≠ .failed) :
    (∃ k', PlayAt cfg t h k') ∧
      ((cfg.availMin ≤ 0 ∨ cfg.bufferSize < cfg.startThreshold) ∨
        (o = none ∧ t.passed = s.passed ∧ t.phase.buf = s.phase.buf) ∨
        ∃ buf, s.phase.buf = some buf ∧ t.phase.buf = none ∧ o = some (0, buf) ∧
          t.passed = s.passed ++ whole cfg buf) := by
  have hphase := hs.phase
  unfold Pcm.go at hstep
  split at hstep
  · cases hstep
  · cases hstep
  · rename_i c hp
    rw [hp] at hphase hclear
    have hfree : 0 < c.count → mmapAvail cfg s = (cfg.bufferSize - k : ℕ) := by
      intro hpos
      have hnot := hclear (decide_eq_true hpos)
      rw [mmapAvail, hin, if_neg (by decide), playbackAvail_eq hs.ptrs hs.le, if_neg hnot]
    have hturn : Turn cfg s c t o := turn_transfer
      (fun hpos => by rw [hfree hpos]; omega) (fun hpos => by rw [hfree hpos]; omega)
      (Option.some.inj hstep)
    cases hturn with
    | failed hfail => exact absurd hfail hok
    | done hcount ht =>
      subst ht
      have hcall : CallOk cfg c := hphase
      refine ⟨⟨k, hs.congr rfl rfl rfl rfl ?_ trivial⟩,
        .inr (.inr ⟨c.buf, by rw [hp]; rfl, rfl, rfl, ?_⟩)⟩
      · rw [hp]
        simp only [current, List.append_nil]
        rw [hcall.framesToBytes (Nat.le_add_right _ _)]
      · rw [← hcall.whole_eq hcount]
    | stopped p r w hbad ht =>
      subst ht
      have hcall : CallOk cfg c := hphase
      refine ⟨⟨k, hs.congr rfl rfl rfl rfl ?_ trivial⟩, .inl hbad⟩
      rw [hp]
      simp only [current, List.append_nil]
      rw [hcall.framesToBytes (Nat.le_add_right _ _)]
    | waited err p r w ht =>
      subst ht
      refine ⟨⟨k, hs.congr rfl rfl rfl rfl ?_ ?_⟩, .inr (.inl ⟨rfl, rfl, by rw [hp]; rfl⟩)⟩
      · rw [hp]
        rfl
      · exact ⟨hphase.small, hphase.frames⟩
    | copies n p r w hpos hle havail ht =>
      subst ht
      rw [hfree (hpos.trans_le hle)] at havail
      refine ⟨⟨k, hs.congr rfl rfl rfl rfl ?_ ?_⟩, .inr (.inl ⟨rfl, rfl, by rw [hp]; rfl⟩)⟩
      · rw [hp]
        rfl
      · exact { toCallOk := hphase, offset_eq := rfl, count_le := by simpa using hle,
                size_le := by exact_mod_cast havail }
  · rename_i c a hp
    rw [hp] at hphase
    have hareas : AreasOk cfg c a (cfg.bufferSize - k) := hphase
    split at hstep
    · cases hstep
      refine ⟨⟨k, hs.congr rfl rfl rfl rfl ?_ ?_⟩, .inr (.inl ⟨rfl, rfl, by rw [hp]; rfl⟩)⟩
      · rw [hp]
        simp only [current, hareas.offset_eq]
      · have hframes := hareas.frames
        have hcount := hareas.count_le
        exact ⟨hareas.small, by dsimp only; omega⟩
    · cases hstep
      obtain ⟨hoffset, hle, hend⟩ := mmapBegin_le hs.ptrs.appl a.size
      refine ⟨⟨k, hs.congr rfl rfl rfl rfl ?_ ⟨hareas, hoffset, hle, hend⟩⟩,
        .inr (.inl ⟨rfl, rfl, by rw [hp]; rfl⟩)⟩
      rw [hp]
      rfl
  · rename_i c a pcmOffset frames hp
    rw [hp] at hphase
    obtain ⟨hareas, hoffset, hle, hend⟩ := hphase
    cases hstep
    have hbytes : frames * cfg.frameBytes ≤ cfg.bufferSize * cfg.frameBytes :=
      Nat.mul_le_mul_right _ (hend.trans (Nat.sub_le _ _))
    have hdata := hareas.bytes_le (hareas.offset_le hle)
    have hlen : ((c.buf.drop (a.offset * cfg.frameBytes)).take (frames * cfg.frameBytes)).length =
        frames * cfg.frameBytes := by
      rw [Nat.add_mul] at hdata
      rw [List.length_take, List.length_drop]
      omega
    have hcopy : areasCopy cfg s pcmOffset c.buf a.offset frames =
        (put s.mmapBuffer ((h * cfg.frameBytes + k * cfg.frameBytes) % cfg.bufferBytes)
          ((c.buf.drop (a.offset * cfg.frameBytes)).take (frames * cfg.frameBytes)), c.buf) := by
      have hpcm : pcmOffset ≤ cfg.bufferSize := by
        rw [hoffset]
        exact (Nat.mod_lt _ cfg.bufferSize_pos).le
      have hoff := hareas.offset_le (Nat.zero_le _)
      rw [areasCopy, hin, if_neg (by decide), framesToBytes_of_le_buffer hpcm,
        framesToBytes_of_le_buffer (hend.trans (Nat.sub_le _ _)),
        hareas.framesToBytes (by simpa using hoff), ← Nat.add_mul, mul_mod_bufferBytes, hoffset]
    rw [hcopy]
    refine ⟨⟨k, ⟨hs.ptrs.hw, hs.ptrs.appl⟩, hs.le, ?_, ?_⟩, .inr (.inl ⟨rfl, rfl, by rw [hp]; rfl⟩)⟩
    · have hstream := hs.stream
      rw [hp] at hstream
      have hroom : k * cfg.frameBytes + frames * cfg.frameBytes ≤ cfg.bufferBytes := by
        rw [← Nat.add_mul]
        refine Nat.mul_le_mul_right _ ?_
        have hsize := hareas.size_le
        have hk := hs.le
        omega
      dsimp only
      rw [slice_put_tail _ (by rw [hlen]; exact hroom), hstream]
      rfl
    · refine ⟨hareas, hle, ?_⟩
      dsimp only
      have hself := slice_put_self s.mmapBuffer (hlen.trans_le (frames_le_end (hoffset ▸ hend)))
      rw [← Nat.add_mul]
      rwa [hlen] at hself
  · rename_i c a frames hp
    rw [hp] at hphase
    obtain ⟨hareas, hle, hslice⟩ := hphase
    cases hstep
    have hk := hs.le
    have hsize := hareas.size_le
    have htwo := cfg.two_mul_le
    have hpos := cfg.bufferSize_pos
    have hmax := cfg.boundary_add_le
    have hint : intMax = 2147483647 := rfl
    refine ⟨⟨k + frames, ⟨hs.ptrs.hw, ?_⟩, by omega, ?_, ?_⟩,
      .inr (.inl ⟨rfl, rfl, by rw [hp]; rfl⟩)⟩
    · have happl := hs.ptrs.appl.le (show 0 < cfg.boundary by omega)
      have hforward := hs.ptrs.appl.forward (show frames < cfg.boundary by omega)
      rw [← Nat.add_assoc]
      dsimp only [applForward]
      rwa [Nat.mod_eq_of_lt (show s.applPtr + frames < 4294967296 by omega)]
    · have hstream := hs.stream
      rw [hp] at hstream
      dsimp only
      rw [Nat.add_mul k, slice_add, ← List.append_assoc, hstream, ← Nat.add_mul, hslice]
      simp only [current]
      rw [Nat.add_mul, List.take_add, List.append_assoc]
    · refine (hareas.commit hle).mono ?_
      omega

/-- What holds in every run of a playback stream until an error is returned. -/
structure Playing (cfg : Config) (tr : List (Input × Return)) (s : Pcm) : Prop where
  at_frames : ∃ h k, PlayAt cfg s h k
  booked : Booked cfg tr s
  called_eq : called tr = (returns tr).map (·.2) ++ s.phase.buf.toList

/-- After an error there is nothing but the ticks of the device. -/
theorem phase_of_step {s t : Pcm} {i : Input} {o : Return} (hstep : step cfg s i = some (t, o))
    (hok : t.phase ≠ .failed) : s.phase ≠ .failed := by
  intro hfailed
  cases i with
  | call buf => simp [step, hfailed] at hstep
  | go a => simp [step, Pcm.go, hfailed] at hstep
  | tick frame =>
    refine hok ?_
    simp only [step, Pcm.tick] at hstep
    repeat' split at hstep
    all_goals cases hstep
    all_goals exact hfailed

/-- **One step** of a playback stream, whatever its thresholds are. -/
theorem PlayAt.step {i : Input} (hs : PlayAt cfg s h k) (hin : cfg.isIn = false)
    (hclear : Clear cfg s i) (hstep : step cfg s i = some (t, o)) (hok : t.phase ≠ .failed) :
    ∃ h' k', PlayAt cfg t h' k' := by
  cases i with
  | call buf =>
    simp only [Audio.step] at hstep
    split at hstep
    · rename_i hidle
      split at hstep
      · cases hstep
        exact ⟨h, k, hs⟩
      · cases hstep
        refine ⟨h, k, hs.congr rfl rfl rfl rfl ?_ ⟨hclear, Nat.zero_add _⟩⟩
        rw [hidle]
        simp [current]
    · cases hstep
  | go a => exact ⟨h, (hs.go hin hclear hstep hok).1⟩
  | tick frame =>
    obtain ⟨j, -, -, -, -, hs'⟩ := hs.tick hin hstep
    exact ⟨h + 1, j, hs'⟩

/-- **One step** of a playback stream. -/
theorem Playing.step {tr : List (Input × Return)} {i : Input} (hs : Playing cfg tr s)
    (hin : cfg.isIn = false) (hmin : 0 < cfg.availMin)
    (hth : cfg.startThreshold ≤ cfg.bufferSize) (hclear : Clear cfg s i)
    (hstep : step cfg s i = some (t, o)) (hok : t.phase ≠ .failed) :
    Playing cfg (tr ++ [(i, o)]) t := by
  obtain ⟨⟨h, k, hat⟩, hbooked, hcalled⟩ := hs
  suffices Booked cfg (tr ++ [(i, o)]) t ∧
      called (tr ++ [(i, o)]) = (returns (tr ++ [(i, o)])).map (·.2) ++ t.phase.buf.toList from
    ⟨hat.step hin hclear hstep hok, this.1, this.2⟩
  cases i with
  | call buf =>
    simp only [Audio.step] at hstep
    split at hstep
    · rename_i hidle
      split at hstep
      · rename_i hempty
        cases hstep
        have hbuf : buf = [] := List.length_eq_zero_iff.mp hempty
        refine ⟨hbooked.done (by rw [hbuf]; simp [whole]), ?_⟩
        rw [called_snoc_call, returns_snoc, hcalled, hidle]
        simp [Phase.buf]
      · cases hstep
        refine ⟨hbooked.silent rfl, ?_⟩
        rw [called_snoc_call, returns_snoc, hcalled, hidle]
        simp [Phase.buf]
    · cases hstep
  | go a =>
    obtain ⟨-, hreturn⟩ := hat.go hin hclear hstep hok
    rcases hreturn.resolve_left (by omega) with
      ⟨rfl, hpassed, hbuf⟩ | ⟨buf, hbuf, hbuf', rfl, hpassed⟩
    · refine ⟨hbooked.silent hpassed, ?_⟩
      rw [called_snoc_go, returns_snoc, hcalled, hbuf, Option.toList_none, List.append_nil]
    · refine ⟨hbooked.done hpassed, ?_⟩
      rw [called_snoc_go, returns_snoc, hcalled, hbuf, hbuf']
      simp
  | tick frame =>
    obtain ⟨j, -, rfl, hpassed, hphase, -⟩ := hat.tick hin hstep
    refine ⟨hbooked.silent hpassed, ?_⟩
    rw [called_snoc_tick, returns_snoc, hcalled, hphase, Option.toList_none, List.append_nil]

/-- What is in the ring. -/
theorem PlayAt.pending_eq (hs : PlayAt cfg s h k) (hin : cfg.isIn = false) :
    pending cfg s = slice s.mmapBuffer cfg.bufferBytes (h * cfg.frameBytes)
      (k * cfg.frameBytes) := by
  rw [pending, hin, if_neg (by decide), queued_eq hs.ptrs hs.le, hs.ptrs.hw,
    Nat.mod_mod_of_dvd _ cfg.bufferSize_dvd, slice_frame]

end Playback

/-! ### Capture -/

/-- Where the caller is, when it is at the frame `h` and `k` frames are in the ring. -/
def RecordPhase (mem : ℕ → UInt8) (h k : ℕ) : Phase → Prop
  | .idle | .failed => True
  | .transfer c => CallOk cfg c
  | .areas c a => AreasOk cfg c a k
  | .begun c a pcmOffset frames => AreasOk cfg c a k ∧
    pcmOffset = h % cfg.bufferSize ∧ frames ≤ a.size ∧ frames ≤ cfg.bufferSize - pcmOffset
  | .copied c a frames => AreasOk cfg c a k ∧ frames ≤ a.size ∧
    (c.buf.drop (a.offset * cfg.frameBytes)).take (frames * cfg.frameBytes) =
      slice mem cfg.bufferBytes (h * cfg.frameBytes) (frames * cfg.frameBytes)

/-- **The invariant of a capture stream**: what has been recorded is what has been passed on and
what is in the ring. -/
structure RecordAt (s : Pcm) (h k : ℕ) : Prop where
  appl : PointsTo cfg.boundary s.applPtr h
  hw : s.hwPtr = (h + k) % cfg.boundary
  le : k ≤ cfg.bufferSize
  stream : s.sounded = s.passed ++ current cfg s.phase ++
    slice s.mmapBuffer cfg.bufferBytes (h * cfg.frameBytes) (k * cfg.frameBytes)
  phase : RecordPhase cfg s.mmapBuffer h k s.phase

section Capture

variable {cfg} {s t : Pcm} {h k : ℕ} {o : Return}

theorem RecordAt.avail (hs : RecordAt cfg s h k) (hin : cfg.isIn = true) :
    mmapAvail cfg s = k := by
  rw [mmapAvail, hin, if_pos rfl, captureAvail_eq hs.appl hs.hw hs.le]

/-- Another frame in the ring does not disturb the caller. -/
theorem RecordPhase.tick {mem mem' : ℕ → UInt8} {p : Phase} (hp : RecordPhase cfg mem h k p)
    (hmem : slice mem' cfg.bufferBytes (h * cfg.frameBytes) (k * cfg.frameBytes) =
      slice mem cfg.bufferBytes (h * cfg.frameBytes) (k * cfg.frameBytes)) :
    RecordPhase cfg mem' h (k + 1) p := by
  cases p with
  | idle => trivial
  | failed => trivial
  | transfer c => exact hp
  | areas c a => exact AreasOk.mono hp (Nat.le_succ k)
  | begun c a p f =>
    obtain ⟨hareas, hrest⟩ := hp
    exact ⟨hareas.mono (Nat.le_succ k), hrest⟩
  | copied c a f =>
    obtain ⟨hareas, hle, hslice⟩ := hp
    have hfk : f * cfg.frameBytes ≤ k * cfg.frameBytes :=
      Nat.mul_le_mul_right _ (hle.trans hareas.size_le)
    refine ⟨hareas.mono (Nat.le_succ k), hle, ?_⟩
    rw [hslice, ← take_slice hfk, ← take_slice hfk, hmem]

/-- The device records a frame. -/
theorem RecordAt.tick (hs : RecordAt cfg s h k) (hin : cfg.isIn = true)
    (hroom : captureAvail cfg s < cfg.bufferSize) {frame : List UInt8}
    (hstep : s.tick cfg frame = some (t, o)) :
    o = none ∧ t.passed = s.passed ∧ RecordAt cfg t h (k + 1) := by
  have hpos := cfg.bufferSize_pos
  rw [captureAvail_eq hs.appl hs.hw hs.le] at hroom
  have hk : k < cfg.bufferSize := by exact_mod_cast hroom
  simp only [Pcm.tick] at hstep
  rw [hin] at hstep
  split at hstep
  · cases hstep
  · rw [if_pos rfl] at hstep
    split at hstep
    · cases hstep
    · rename_i hlen
      rw [not_not] at hlen
      cases hstep
      have hoff : s.hwPtr % cfg.bufferSize * cfg.frameBytes =
          (h * cfg.frameBytes + k * cfg.frameBytes) % cfg.bufferBytes := by
        rw [hs.hw, Nat.mod_mod_of_dvd _ cfg.bufferSize_dvd, ← Nat.add_mul, mul_mod_bufferBytes]
      have hfit : k * cfg.frameBytes + frame.length ≤ cfg.bufferBytes := by
        rw [hlen, ← Nat.succ_mul]
        exact Nat.mul_le_mul_right _ hk
      have hold : slice _ cfg.bufferBytes (h * cfg.frameBytes) (k * cfg.frameBytes) = _ :=
        slice_put_tail s.mmapBuffer hfit
      have hlt := Nat.mod_lt (h + k) hpos
      have hend : 1 * cfg.frameBytes ≤
          cfg.bufferBytes - (h + k) * cfg.frameBytes % cfg.bufferBytes := frames_le_end (by omega)
      rw [Nat.one_mul, ← hlen, Nat.add_mul] at hend
      have hnew := slice_put_self s.mmapBuffer hend
      refine ⟨rfl, rfl, hs.appl, ?_, hk, ?_, ?_⟩
      · dsimp only
        rw [hs.hw, Nat.mod_add_mod, Nat.add_assoc]
      · dsimp only
        rw [hlen] at hnew
        rw [hoff, Nat.succ_mul, slice_add, hold, hnew, ← List.append_assoc, ← hs.stream]
      · dsimp only
        rw [hoff]
        exact hs.phase.tick hold

theorem length_overwrite {buf chunk : List UInt8} {offset : ℕ}
    (hle : offset + chunk.length ≤ buf.length) :
    (overwrite buf offset chunk).length = buf.length := by
  rw [overwrite, List.length_append, List.length_append, List.length_take, List.length_drop]
  omega

theorem take_overwrite {buf chunk : List UInt8} {offset : ℕ}
    (hle : offset + chunk.length ≤ buf.length) :
    (overwrite buf offset chunk).take offset = buf.take offset := by
  rw [overwrite, List.append_assoc, List.take_left' (by rw [List.length_take]; omega)]

theorem drop_overwrite {buf chunk : List UInt8} {offset : ℕ}
    (hle : offset + chunk.length ≤ buf.length) :
    ((overwrite buf offset chunk).drop offset).take chunk.length = chunk := by
  rw [overwrite, List.append_assoc, List.drop_left' (by rw [List.length_take]; omega),
    List.take_left' rfl]

theorem CallOk.withBuf {c : Call} (hc : CallOk cfg c) {buf : List UInt8}
    (hlen : buf.length = c.buf.length) : CallOk cfg { c with buf := buf } :=
  ⟨hlen ▸ hc.small, hlen ▸ hc.frames⟩

theorem RecordAt.congr (hs : RecordAt cfg s h k) (hhw : t.hwPtr = s.hwPtr)
    (happl : t.applPtr = s.applPtr) (hmem : t.mmapBuffer = s.mmapBuffer)
    (hsounded : t.sounded = s.sounded)
    (hpassed : t.passed ++ current cfg t.phase = s.passed ++ current cfg s.phase)
    (hphase : RecordPhase cfg s.mmapBuffer h k t.phase) : RecordAt cfg t h k where
  appl := happl ▸ hs.appl
  hw := hhw.trans hs.hw
  le := hs.le
  stream := by rw [hsounded, hmem, hpassed, hs.stream]
  phase := hmem ▸ hphase

/-- **The caller's next step.** -/
theorem RecordAt.go (hs : RecordAt cfg s h k) (hin : cfg.isIn = true) (hmin : 0 < cfg.availMin)
    (hth : cfg.startThreshold ≤ cfg.bufferSize) {a : Answers}
    (hstep : s.go cfg a = some (t, o)) (hok : t.phase ≠ .failed) :
    (∃ h' k', RecordAt cfg t h' k') ∧ ((o = none ∧ t.passed = s.passed) ∨
      ∃ buf, o = some (0, buf) ∧ t.passed = s.passed ++ whole cfg buf) := by
  have hphase := hs.phase
  unfold Pcm.go at hstep
  split at hstep
  · cases hstep
  · cases hstep
  · rename_i c hp
    rw [hp] at hphase
    have hturn : Turn cfg s c t o := turn_transfer (fun _ => by rw [hs.avail hin]; omega)
      (fun _ => by rw [hs.avail hin]; exact_mod_cast hs.le) (Option.some.inj hstep)
    cases hturn with
    | failed hfail => exact absurd hfail hok
    | done hcount ht =>
      subst ht
      have hcall : CallOk cfg c := hphase
      refine ⟨⟨h, k, hs.congr rfl rfl rfl rfl ?_ trivial⟩, .inr ⟨c.buf, rfl, ?_⟩⟩
      · rw [hp]
        simp only [current, List.append_nil]
        rw [hcall.framesToBytes (Nat.le_add_right _ _)]
      · rw [← hcall.whole_eq hcount]
    | stopped p r w hbad ht => omega
    | waited err p r w ht =>
      subst ht
      refine ⟨⟨h, k, hs.congr rfl rfl rfl rfl ?_ ?_⟩, .inl ⟨rfl, rfl⟩⟩
      · rw [hp]
        rfl
      · exact ⟨hphase.small, hphase.frames⟩
    | copies n p r w hpos hle havail ht =>
      subst ht
      rw [hs.avail hin] at havail
      refine ⟨⟨h, k, hs.congr rfl rfl rfl rfl ?_ ?_⟩, .inl ⟨rfl, rfl⟩⟩
      · rw [hp]
        rfl
      · exact { toCallOk := hphase, offset_eq := rfl, count_le := by simpa using hle,
                size_le := by exact_mod_cast havail }
  · rename_i c a hp
    rw [hp] at hphase
    have hareas : AreasOk cfg c a k := hphase
    split at hstep
    · cases hstep
      refine ⟨⟨h, k, hs.congr rfl rfl rfl rfl ?_ ?_⟩, .inl ⟨rfl, rfl⟩⟩
      · rw [hp]
        simp only [current, hareas.offset_eq]
      · have hframes := hareas.frames
        have hcount := hareas.count_le
        exact ⟨hareas.small, by dsimp only; omega⟩
    · cases hstep
      obtain ⟨hoffset, hle, hend⟩ := mmapBegin_le hs.appl a.size
      refine ⟨⟨h, k, hs.congr rfl rfl rfl rfl ?_ ⟨hareas, hoffset, hle, hend⟩⟩, .inl ⟨rfl, rfl⟩⟩
      rw [hp]
      rfl
  · rename_i c a pcmOffset frames hp
    rw [hp] at hphase
    obtain ⟨hareas, hoffset, hle, hend⟩ := hphase
    cases hstep
    have hdata := hareas.bytes_le (hareas.offset_le hle)
    rw [Nat.add_mul] at hdata
    have hcopy : areasCopy cfg s pcmOffset c.buf a.offset frames = (s.mmapBuffer,
        overwrite c.buf (a.offset * cfg.frameBytes) (slice s.mmapBuffer cfg.bufferBytes
          (h * cfg.frameBytes) (frames * cfg.frameBytes))) := by
      have hpcm : pcmOffset ≤ cfg.bufferSize := by
        rw [hoffset]
        exact (Nat.mod_lt _ cfg.bufferSize_pos).le
      have hoff := hareas.offset_le (Nat.zero_le _)
      rw [areasCopy, hin, if_pos rfl, framesToBytes_of_le_buffer hpcm,
        framesToBytes_of_le_buffer (hend.trans (Nat.sub_le _ _)),
        hareas.framesToBytes (by simpa using hoff),
        slice_eq_of_le (frames_le_end (hoffset ▸ hend)), mul_mod_bufferBytes, hoffset]
    have hfit : a.offset * cfg.frameBytes + (slice s.mmapBuffer cfg.bufferBytes
        (h * cfg.frameBytes) (frames * cfg.frameBytes)).length ≤ c.buf.length := by
      rwa [length_slice]
    rw [hcopy]
    have hlen := length_overwrite hfit
    refine ⟨⟨h, k, hs.congr rfl rfl rfl rfl ?_ ⟨?_, hle, ?_⟩⟩, .inl ⟨rfl, rfl⟩⟩
    · rw [hp]
      simp only [current]
      rw [take_overwrite hfit]
    · exact { toCallOk := hareas.toCallOk.withBuf hlen, offset_eq := hareas.offset_eq,
              count_le := hareas.count_le, size_le := hareas.size_le }
    · have hdrop := drop_overwrite hfit
      rwa [length_slice] at hdrop
  · rename_i c a frames hp
    rw [hp] at hphase
    obtain ⟨hareas, hle, hslice⟩ := hphase
    cases hstep
    have hk := hs.le
    have hsize := hareas.size_le
    have htwo := cfg.two_mul_le
    have hpos := cfg.bufferSize_pos
    have hmax := cfg.boundary_add_le
    have hint : intMax = 2147483647 := rfl
    obtain ⟨j, rfl⟩ := Nat.exists_eq_add_of_le (hle.trans hsize)
    refine ⟨⟨h + frames, j, ?_, ?_, by omega, ?_, ?_⟩, .inl ⟨rfl, rfl⟩⟩
    · have happl := hs.appl.le (show 0 < cfg.boundary by omega)
      have hforward := hs.appl.forward (show frames < cfg.boundary by omega)
      dsimp only [applForward]
      rwa [Nat.mod_eq_of_lt (show s.applPtr + frames < 4294967296 by omega)]
    · rw [Nat.add_assoc]
      exact hs.hw
    · have hstream := hs.stream
      rw [hp, Nat.add_mul frames, slice_add, ← hslice] at hstream
      dsimp only
      rw [hstream]
      simp only [current]
      rw [Nat.add_mul, List.take_add, Nat.add_mul]
      simp only [List.append_assoc]
    · refine (hareas.commit hle).mono ?_
      omega

/-- What holds in every run of a capture stream until an error is returned. -/
structure Recording (cfg : Config) (tr : List (Input × Return)) (s : Pcm) : Prop where
  at_frames : ∃ h k, RecordAt cfg s h k
  booked : Booked cfg tr s

theorem recording_prepared (mem : ℕ → UInt8) : Recording cfg [] (prepared mem) where
  at_frames := ⟨0, 0, .inl (Nat.zero_mod _).symm, (Nat.zero_mod _).symm, Nat.zero_le _,
    by simp [prepared, current], trivial⟩
  booked := booked_prepared mem

/-- **One step** of a capture stream. -/
theorem Recording.step {tr : List (Input × Return)} {i : Input} (hs : Recording cfg tr s)
    (hin : cfg.isIn = true) (hmin : 0 < cfg.availMin)
    (hth : cfg.startThreshold ≤ cfg.bufferSize) (hkept : Kept cfg s i)
    (hstep : step cfg s i = some (t, o)) (hok : t.phase ≠ .failed) :
    Recording cfg (tr ++ [(i, o)]) t := by
  obtain ⟨⟨h, k, hat⟩, hbooked⟩ := hs
  cases i with
  | call buf =>
    simp only [Audio.step] at hstep
    split at hstep
    · rename_i hidle
      split at hstep
      · rename_i hempty
        cases hstep
        have hbuf : buf = [] := List.length_eq_zero_iff.mp hempty
        exact ⟨⟨h, k, hat⟩, hbooked.done (by rw [hbuf]; simp [whole])⟩
      · cases hstep
        refine ⟨⟨h, k, hat.congr rfl rfl rfl rfl ?_ ?_⟩, hbooked.silent rfl⟩
        · rw [hidle]
          simp [current]
        · exact ⟨hkept, Nat.zero_add _⟩
    · cases hstep
  | go a =>
    obtain ⟨hat', hreturn⟩ := hat.go hin hmin hth hstep hok
    rcases hreturn with ⟨rfl, hpassed⟩ | ⟨buf, rfl, hpassed⟩
    · exact ⟨hat', hbooked.silent hpassed⟩
    · exact ⟨hat', hbooked.done hpassed⟩
  | tick frame =>
    obtain ⟨rfl, hpassed, hat'⟩ := hat.tick hin hkept hstep
    exact ⟨⟨h, k + 1, hat'⟩, hbooked.silent hpassed⟩

/-- What is in the ring. -/
theorem RecordAt.pending_eq (hs : RecordAt cfg s h k) (hin : cfg.isIn = true) :
    pending cfg s = slice s.mmapBuffer cfg.bufferBytes (h * cfg.frameBytes)
      (k * cfg.frameBytes) := by
  rw [pending, hin, if_pos rfl, captureAvail_eq hs.appl hs.hw hs.le, Int.toNat_natCast,
    hs.appl.mod cfg.bufferSize_dvd, slice_frame]

end Capture

/-! ### Runs -/

section Runs

variable {cfg} {mem : ℕ → UInt8} {tr : List (Input × Return)} {s : Pcm}

/-- A buffer of four frames of one byte each. -/
def smallConfig (isIn : Bool) : Config where
  frameBytes := 1
  bufferSize := 4
  startThreshold := 2
  availMin := 1
  isIn := isIn
  frameBytes_pos := Nat.one_pos
  bufferSize_pos := by decide
  mapped := by decide
  bufferSize_le := by decide

def smoothly : Input := .go ⟨true, true, 0, 1⟩

/-- **What has been recorded is what is read.** In every run of a capture stream in which the device
does not record into a full ring: what it has recorded are the frames of the calls that have
returned, what the call that is going on has committed, and what is in the ring. -/
theorem capture_fifo (hin : cfg.isIn = true) (hmin : 0 < cfg.availMin)
    (hth : cfg.startThreshold ≤ cfg.bufferSize)
    (h : RunWhere (step cfg) (Kept cfg) (prepared mem) tr s) (hok : s.phase ≠ .failed) :
    s.sounded = ((returns tr).flatMap fun r => whole cfg r.2) ++ current cfg s.phase ++
        pending cfg s ∧ ∀ r ∈ returns tr, r.1 = 0 := by
  have hinv : s.phase ≠ .failed → Recording cfg tr s :=
    h.invariant (P := fun tr s => s.phase ≠ .failed → Recording cfg tr s)
      (fun _ => recording_prepared mem)
      fun hprev hkept hstep hok =>
        (hprev (phase_of_step hstep hok)).step hin hmin hth hkept hstep hok
  obtain ⟨⟨i, k, hat⟩, hbooked⟩ := hinv hok
  refine ⟨?_, hbooked.ok⟩
  rw [hat.pending_eq hin, hat.stream, hbooked.passed]

/-- A call that waits for two frames, and a frame that is not read. -/
def recordInputs : List Input :=
  [.call [0, 0], smoothly, smoothly, .tick [1], .tick [2], smoothly, smoothly, smoothly, smoothly,
    smoothly, smoothly, .tick [3]]

/-- The call has returned the first two frames, the third is in the ring. -/
theorem capture_fifo_small : ∃ tr s,
    RunWhere (step (smallConfig true)) (Kept (smallConfig true)) (prepared fun _ => 0) tr s ∧
      returns tr = [(0, [1, 2])] ∧ s.sounded = [1, 2] ++ pending (smallConfig true) s := by
  have hexec : exec (step (smallConfig true)) (Kept (smallConfig true)) (prepared fun _ => 0)
      recordInputs = some _ := rfl
  have hrun := run_of_exec hexec
  have hfifo := capture_fifo rfl (by decide) (by decide) hrun (fun h => by cases h)
  exact ⟨_, _, hrun, rfl, hfifo.1.trans rfl⟩

end Runs

end Audio

end A1000

import A1000.Lib.Ring
import A1000.Lib.Run

/-!
# Streaming through a mapped buffer

With `PCM_MMAP`, tinyalsa and the sound device have a ring buffer in common. The device moves
`hw_ptr` through it while a stream runs; `pcm_mmap_write` and `pcm_mmap_read` wait for room or for
frames, copy, and move `appl_ptr`. The two pointers wrap around at `boundary`, a large multiple of
the size of the buffer, and `appl_ptr` may also stand at it.

A run interleaves the caller's steps with the ticks of the device, of one frame each; between any
two statements that touch the buffer or the pointers the device may tick as often as it likes. The
stream has been prepared, and after an error that is returned to the caller nothing more is asked of
it. The status and control pages are mapped.

## Main definitions

* `Audio.Config`, `Audio.growBoundary` — an opened stream
* `Audio.playbackAvail`, `Audio.captureAvail`, `Audio.mmapBegin`, `Audio.applForward`
* `Audio.Pcm`, `Audio.step` — the stream, its caller and the device

## Main results

* `Audio.playbackAvail_eq`, `Audio.captureAvail_eq` — what is available
-/

namespace A1000

namespace Audio

open Ring

/-! ### Opening -/

def intMax : ℕ := 2147483647

/-- The loop of `pcm_open` that doubles the boundary; it has ended after 31 turns. -/
def growBoundary (bufferSize : ℕ) : ℕ → ℕ → ℕ
  | 0, boundary => boundary
  | fuel + 1, boundary =>
    if boundary * 2 ≤ intMax - bufferSize then growBoundary bufferSize fuel (boundary * 2)
    else boundary

/-- The configuration of an opened stream: `frameBytes` is the number of channels times
`pcm_format_to_bits(format) >> 3`. -/
structure Config where
  frameBytes : ℕ
  bufferSize : ℕ
  startThreshold : ℕ
  availMin : ℤ
  /-- `PCM_IN` -/
  isIn : Bool
  frameBytes_pos : 0 < frameBytes
  bufferSize_pos : 0 < bufferSize
  /-- The buffer has been mapped, -/
  mapped : bufferSize * frameBytes ≤ intMax
  /-- and its size fits a boundary in the range of `int` twice. -/
  bufferSize_le : 3 * bufferSize ≤ intMax

/-- `pcm->boundary`. -/
def Config.boundary (cfg : Config) : ℕ := growBoundary cfg.bufferSize 31 cfg.bufferSize

/-- The size of the mapped buffer. -/
def Config.bufferBytes (cfg : Config) : ℕ := cfg.bufferSize * cfg.frameBytes

/-- `pcm_bytes_to_frames`. -/
def Config.bytesToFrames (cfg : Config) (bytes : ℕ) : ℕ := bytes / cfg.frameBytes

/-- `pcm_frames_to_bytes`, an `unsigned int`. -/
def Config.framesToBytes (cfg : Config) (frames : ℕ) : ℕ := frames * cfg.frameBytes % 4294967296

theorem growBoundary_le {bufferSize : ℕ} (fuel : ℕ) {b : ℕ} (h : b ≤ intMax - bufferSize) :
    growBoundary bufferSize fuel b ≤ intMax - bufferSize := by
  induction fuel generalizing b with
  | zero => exact h
  | succ fuel ih =>
    rw [growBoundary]
    split
    · exact ih ‹_›
    · exact h

theorem dvd_growBoundary (bufferSize fuel b : ℕ) : b ∣ growBoundary bufferSize fuel b := by
  induction fuel generalizing b with
  | zero => exact dvd_refl b
  | succ fuel ih =>
    rw [growBoundary]
    split
    · exact (dvd_mul_right b 2).trans (ih _)
    · exact dvd_refl b

theorem le_growBoundary (bufferSize fuel b : ℕ) : b ≤ growBoundary bufferSize fuel b := by
  induction fuel generalizing b with
  | zero => exact le_refl b
  | succ fuel ih =>
    rw [growBoundary]
    split
    · exact (Nat.le_mul_of_pos_right b (by omega)).trans (ih _)
    · exact le_refl b

section Config

variable (cfg : Config)

theorem Config.bufferSize_dvd : cfg.bufferSize ∣ cfg.boundary := dvd_growBoundary _ _ _

/-- The buffer fits in the boundary twice, -/
theorem Config.two_mul_le : 2 * cfg.bufferSize ≤ cfg.boundary := by
  have h := cfg.bufferSize_le
  rw [Config.boundary, growBoundary, if_pos (by omega), Nat.mul_comm]
  exact le_growBoundary _ _ _

/-- and the two together in an `int`. -/
theorem Config.boundary_add_le : cfg.boundary + cfg.bufferSize ≤ intMax := by
  have h := cfg.bufferSize_le
  have hle : growBoundary cfg.bufferSize 31 cfg.bufferSize ≤ intMax - cfg.bufferSize :=
    growBoundary_le 31 (by omega)
  rw [Config.boundary]
  omega

end Config

/-! ### The stream, its caller and the device -/

/-- The locals of `pcm_mmap_transfer`, in frames but for the buffer. -/
structure Call where
  buf : List UInt8
  offset : ℕ
  count : ℕ
  err : ℤ
  deriving DecidableEq, Repr

/-- The locals of `pcm_mmap_transfer_areas`. -/
structure Areas where
  offset : ℕ
  size : ℕ
  count : ℕ
  deriving DecidableEq, Repr

/-- Where the caller is. -/
inductive Phase
  | idle
  /-- At the head of the loop of `pcm_mmap_transfer`. -/
  | transfer (c : Call)
  /-- At the head of the loop of `pcm_mmap_transfer_areas`. -/
  | areas (c : Call) (a : Areas)
  /-- After `pcm_mmap_begin`. -/
  | begun (c : Call) (a : Areas) (pcmOffset frames : ℕ)
  /-- After `pcm_areas_copy`. -/
  | copied (c : Call) (a : Areas) (frames : ℕ)
  /-- An error has been returned. -/
  | failed
  deriving DecidableEq, Repr

/-- `struct pcm` with its mapped pages. What the device has played or recorded so far, and the
buffers of the calls that have returned, are kept to speak about them. -/
structure Pcm where
  hwPtr : ℕ
  applPtr : ℕ
  mmapBuffer : ℕ → UInt8
  prepared : Bool
  running : Bool
  waitForAvailMin : Bool
  phase : Phase
  sounded : List UInt8
  passed : List UInt8

/-- The value of an `int` that has been computed as `n`. -/
def asInt (n : ℤ) : ℤ :=
  if n % 4294967296 < 2147483648 then n % 4294967296 else n % 4294967296 - 4294967296

/-- The value of an `unsigned int` that has been computed as `n`. -/
def asUnsigned (n : ℤ) : ℕ := (n % 4294967296).toNat

variable (cfg : Config)

/-- `pcm_mmap_playback_avail`. -/
def playbackAvail (s : Pcm) : ℤ :=
  let avail := asInt (s.hwPtr + cfg.bufferSize - s.applPtr)
  if avail < 0 then asInt (avail + cfg.boundary)
  else if avail > asInt cfg.boundary then asInt (avail - cfg.boundary)
  else avail

/-- `pcm_mmap_capture_avail`. -/
def captureAvail (s : Pcm) : ℤ :=
  let avail := asInt (s.hwPtr - s.applPtr)
  if avail < 0 then asInt (avail + cfg.boundary) else avail

/-- `pcm_mmap_avail`. -/
def mmapAvail (s : Pcm) : ℤ := if cfg.isIn then captureAvail cfg s else playbackAvail cfg s

/-- `pcm_mmap_appl_forward`. -/
def applForward (applPtr frames : ℕ) : ℕ :=
  let applPtr := (applPtr + frames) % 4294967296
  if applPtr > cfg.boundary then applPtr - cfg.boundary else applPtr

/-- `pcm_mmap_begin`: the offset, and how many of the frames can be copied at once. -/
def mmapBegin (s : Pcm) (frames : ℕ) : ℕ × ℕ :=
  let offset := s.applPtr % cfg.bufferSize
  let avail := min (asUnsigned (mmapAvail cfg s)) cfg.bufferSize
  (offset, min (min frames avail) (cfg.bufferSize - offset))

/-- The buffer of the caller with some of it overwritten. -/
def overwrite (buf : List UInt8) (offset : ℕ) (chunk : List UInt8) : List UInt8 :=
  buf.take offset ++ chunk ++ buf.drop (offset + chunk.length)

/-- `pcm_areas_copy`: between the ring and the buffer of the caller. -/
def areasCopy (s : Pcm) (pcmOffset : ℕ) (buf : List UInt8) (srcOffset frames : ℕ) :
    (ℕ → UInt8) × List UInt8 :=
  let sizeBytes := cfg.framesToBytes frames
  let pcmOffsetBytes := cfg.framesToBytes pcmOffset
  let srcOffsetBytes := cfg.framesToBytes srcOffset
  if cfg.isIn then
    (s.mmapBuffer, overwrite buf srcOffsetBytes
      ((List.range sizeBytes).map fun i => s.mmapBuffer (pcmOffsetBytes + i)))
  else (put s.mmapBuffer pcmOffsetBytes ((buf.drop srcOffsetBytes).take sizeBytes), buf)

/-- What the kernel answers in one turn of the loop: to `PREPARE` and to `START`, with `errno` when
one of them fails, and what `pcm_wait` returns. -/
structure Answers where
  prepareOk : Bool
  startOk : Bool
  errno : ℤ
  wait : ℤ
  deriving DecidableEq, Repr

/-- `pcm_start`: the stream, and whether it has been started. -/
def Pcm.start (s : Pcm) (k : Answers) : Pcm × Bool :=
  if ¬ s.prepared ∧ ¬ k.prepareOk then (s, false)
  else if ¬ k.startOk then ({ s with prepared := true }, false)
  else ({ s with prepared := true, running := true }, true)

/-- What is returned, and the buffer. -/
abbrev Return := Option (ℤ × List UInt8)

/-- A call returns without an error. -/
def Pcm.finish (s : Pcm) (c : Call) (r : ℤ) : Pcm × Return :=
  ({ s with phase := .idle, passed := s.passed ++ c.buf.take (cfg.framesToBytes c.offset) },
    some (r, c.buf))

/-- A call returns an error. -/
def Pcm.fail (s : Pcm) (c : Call) (r : ℤ) : Pcm × Return :=
  ({ s with phase := .failed }, some (r, c.buf))

/-- The end of a turn of the loop: `avail` frames are dealt with, or the loop is left. -/
def Pcm.transferFrames (s : Pcm) (c : Call) (avail : ℤ) : Pcm × Return :=
  let frames := min (c.count : ℤ) avail
  if frames = 0 then s.finish cfg c 0
  else ({ s with phase := .areas c ⟨c.offset, frames.toNat, 0⟩ }, none)

/-- The stream is running, and may have to wait. -/
def Pcm.transferRunning (s : Pcm) (c : Call) (avail : ℤ) (k : Answers) : Pcm × Return :=
  let wait := s.waitForAvailMin || decide (asUnsigned avail < c.count)
  if wait ∧ avail < cfg.availMin then
    if k.wait < 0 then
      Pcm.fail { s with
        waitForAvailMin := false, prepared := false, running := false, applPtr := 0 } c k.wait
    else
      ({ s with waitForAvailMin := false, phase := .transfer { c with err := k.wait } }, none)
  else Pcm.transferFrames cfg { s with waitForAvailMin := wait } c avail

/-- A turn of the loop of `pcm_mmap_transfer`. -/
def Pcm.transfer (s : Pcm) (c : Call) (k : Answers) : Pcm × Return :=
  if c.count = 0 then s.finish cfg c 0
  else
    let avail := mmapAvail cfg s
    if avail < 0 then s.finish cfg c c.err
    else if ¬ s.running ∧ cfg.startThreshold ≤ asUnsigned (cfg.bufferSize - avail) then
      match s.start k with
      | (s, false) => s.fail c (-k.errno)
      | (s, true) => Pcm.transferRunning cfg { s with waitForAvailMin := false } c avail k
    else if s.running then s.transferRunning cfg c avail k
    else s.transferFrames cfg c avail

/-- The caller's next step. -/
def Pcm.go (s : Pcm) (k : Answers) : Option (Pcm × Return) :=
  match s.phase with
  | .idle | .failed => none
  | .transfer c => some (s.transfer cfg c k)
  | .areas c a =>
    if a.size = 0 then
      let c := { c with offset := c.offset + a.count, count := c.count - a.count }
      some ({ s with phase := .transfer c }, none)
    else
      let r := mmapBegin cfg s a.size
      some ({ s with phase := .begun c a r.1 r.2 }, none)
  | .begun c a pcmOffset frames =>
    let r := areasCopy cfg s pcmOffset c.buf a.offset frames
    some ({ s with mmapBuffer := r.1, phase := .copied { c with buf := r.2 } a frames }, none)
  | .copied c a frames =>
    some ({ s with
      applPtr := applForward cfg s.applPtr frames
      phase := .areas c ⟨a.offset + frames, a.size - frames, a.count + frames⟩ }, none)

/-- The frames between the pointers, as the device counts them. -/
def queued (s : Pcm) : ℕ := (s.applPtr + cfg.boundary - s.hwPtr) % cfg.boundary

/-- The device plays a frame, if there is one, or records one. -/
def Pcm.tick (s : Pcm) (frame : List UInt8) : Option (Pcm × Return) :=
  let offset := s.hwPtr % cfg.bufferSize * cfg.frameBytes
  let s' := { s with hwPtr := (s.hwPtr + 1) % cfg.boundary }
  if ¬ s.running then none
  else if cfg.isIn then
    if frame.length ≠ cfg.frameBytes then none
    else some ({ s' with
      mmapBuffer := put s.mmapBuffer offset frame
      sounded := s.sounded ++ frame }, none)
  else if queued cfg s = 0 then none
  else some ({ s' with
    sounded := s.sounded ++ (List.range cfg.frameBytes).map fun i => s.mmapBuffer (offset + i) },
    none)

inductive Input
  /-- `pcm_mmap_write` or `pcm_mmap_read`. -/
  | call (buf : List UInt8)
  | go (k : Answers)
  | tick (frame : List UInt8)
  deriving DecidableEq, Repr

def step (s : Pcm) : Input → Option (Pcm × Return)
  | .call buf =>
    match s.phase with
    | .idle =>
      if buf.length = 0 then some (s, some (0, buf))
      else some ({ s with phase := .transfer ⟨buf, 0, cfg.bytesToFrames buf.length, 0⟩ }, none)
    | _ => none
  | .go k => s.go cfg k
  | .tick frame => s.tick cfg frame

/-- A stream that has been prepared, whatever is in its buffer. -/
def prepared (mmapBuffer : ℕ → UInt8) : Pcm where
  hwPtr := 0
  applPtr := 0
  mmapBuffer := mmapBuffer
  prepared := true
  running := false
  waitForAvailMin := false
  phase := .idle
  sounded := []
  passed := []

/-! ### What is available -/

section Avail

variable {cfg} {s : Pcm} {h t : ℕ}

theorem asInt_of_lt {n : ℤ} (hlow : -2147483648 ≤ n) (hhigh : n < 2147483648) : asInt n = n := by
  unfold asInt
  split <;> omega

theorem asUnsigned_of_lt {n : ℕ} (h : n < 4294967296) : asUnsigned n = n := by
  unfold asUnsigned
  omega

/-- The pointers, and the numbers of the frames they stand for: the device is at `h` and the
application at `t`. -/
structure At (cfg : Config) (s : Pcm) (h t : ℕ) : Prop where
  hw : s.hwPtr = h % cfg.boundary
  appl : PointsTo cfg.boundary s.applPtr t

theorem add_mod_cases {i k b : ℕ} (hk : k < b) :
    (i + k) % b = i % b + k ∨ (i + k) % b + b = i % b + k := by
  have hlt := Nat.mod_lt i (show 0 < b by omega)
  rw [← Nat.mod_add_mod]
  rcases lt_or_ge (i % b + k) b with hin | hout
  · exact .inl (Nat.mod_eq_of_lt hin)
  · right
    rw [Nat.mod_eq_sub_mod hout, Nat.mod_eq_of_lt (a := i % b + k - b) (by omega)]
    omega

/-- The ring is full, and of the two pointers only that of the application has wrapped around. -/
def FullWrapped (cfg : Config) (s : Pcm) : Prop :=
  s.hwPtr + cfg.bufferSize = s.applPtr + cfg.boundary

instance : Decidable (FullWrapped cfg s) := inferInstanceAs (Decidable (_ = _))

/-- How the pointers lie to each other when the application is `k` frames ahead. -/
theorem At.cases (hat : At cfg s h (h + k)) (hk : k ≤ cfg.bufferSize) :
    s.applPtr = s.hwPtr + k ∨ s.applPtr + cfg.boundary = s.hwPtr + k ∨
      (k = 0 ∧ s.hwPtr = 0 ∧ s.applPtr = cfg.boundary) := by
  have htwo := cfg.two_mul_le
  have hpos := cfg.bufferSize_pos
  have hw := hat.hw
  have hlt := Nat.mod_lt h (show 0 < cfg.boundary by omega)
  have hmod := add_mod_cases (i := h) (show k < cfg.boundary by omega)
  rcases hat.appl with happl | ⟨happl, hzero⟩ <;> omega

/-- **The frames that can be written.** They are those that are free, except when the ring is full
and the pointer of the application alone has wrapped around: then the boundary is returned. -/
theorem playbackAvail_eq {k : ℕ} (hat : At cfg s h (h + k)) (hk : k ≤ cfg.bufferSize) :
    playbackAvail cfg s =
      if FullWrapped cfg s then (cfg.boundary : ℤ) else (cfg.bufferSize - k : ℕ) := by
  have htwo := cfg.two_mul_le
  have hpos := cfg.bufferSize_pos
  have hmax := cfg.boundary_add_le
  have hlt := Nat.mod_lt h (show 0 < cfg.boundary by omega)
  have hle := hat.appl.le (show 0 < cfg.boundary by omega)
  have hw := hat.hw
  have hcases := hat.cases hk
  have hint : intMax = 2147483647 := rfl
  have hfull : FullWrapped cfg s ↔ s.hwPtr + cfg.bufferSize = s.applPtr + cfg.boundary := Iff.rfl
  unfold playbackAvail
  rw [asInt_of_lt (n := (s.hwPtr : ℤ) + cfg.bufferSize - s.applPtr) (by omega) (by omega),
    asInt_of_lt (n := cfg.boundary) (by omega) (by omega)]
  dsimp only
  by_cases hf : FullWrapped cfg s
  · rw [if_pos hf]
    rw [hfull] at hf
    rw [if_neg (by omega), if_neg (by omega)]
    omega
  · rw [if_neg hf]
    rw [hfull] at hf
    split
    · rw [asInt_of_lt (by omega) (by omega)]
      omega
    · split
      · rw [asInt_of_lt (by omega) (by omega)]
        omega
      · omega

/-- **The frames that can be read.** -/
theorem captureAvail_eq {k : ℕ} (happl : PointsTo cfg.boundary s.applPtr h)
    (hw : s.hwPtr = (h + k) % cfg.boundary) (hk : k ≤ cfg.bufferSize) :
    captureAvail cfg s = k := by
  have htwo := cfg.two_mul_le
  have hpos := cfg.bufferSize_pos
  have hmax := cfg.boundary_add_le
  have hint : intMax = 2147483647 := rfl
  have hlt := Nat.mod_lt h (show 0 < cfg.boundary by omega)
  have hlt' := Nat.mod_lt (h + k) (show 0 < cfg.boundary by omega)
  have hle := happl.le (show 0 < cfg.boundary by omega)
  have hmod := add_mod_cases (i := h) (show k < cfg.boundary by omega)
  unfold captureAvail
  rw [asInt_of_lt (n := (s.hwPtr : ℤ) - s.applPtr) (by omega) (by omega)]
  dsimp only
  split
  · rw [asInt_of_lt (by omega) (by omega)]
    rcases happl with happl | ⟨happl, hzero⟩ <;> omega
  · rcases happl with happl | ⟨happl, hzero⟩ <;> omega

end Avail

end Audio

end A1000

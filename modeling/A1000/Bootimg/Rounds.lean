import A1000.Bootimg.Cpio
import A1000.Lib.Orbit

/-!
# How long the parser goes round

Every round of `cpio_parse` that goes on to another one is at a header with two sizes, and the next
position follows from these alone: the header with the name and then the data, each rounded up to a
whole number of words. A size may be negative, for `int(.., 16)` reads a sign, and then the parser
stays where it is or goes back, perhaps for ever; that the archive would not be built as it was is
found out only after the loop.

There are fewer positions than bytes, so if the loop ends at all, it ends within as many rounds as
there are bytes.

## Main definitions

* `Bootimg.positionAt` — where the loop is after so many rounds
* `Bootimg.Advances` — two sizes that take the parser forward
* `Bootimg.EndsInTime` — what is wanted of the loop

## Main results

* `Bootimg.parse_ends_iff` — the loop ends exactly if it is nowhere twice
* `Bootimg.few_rounds` — if it ends, then within as many rounds as there are bytes
* `Bootimg.endsInTime_iff` — all that is wanted, exactly if all headers advance
* `Bootimg.endsInTime_of_no_minus` — without minus signs they do
-/

namespace A1000

namespace Bootimg

open Bytes Orbit

/-! ### One round -/

/-- The round at `q` does not end the loop, and reads these sizes. -/
structure GoesOn (buf : Bytes) (q nsz fsz : Int) : Prop where
  header : HeaderAt buf q
  nameSize : nameSize? buf q = some nsz
  fileSize : fileSize? buf q = some fsz
  more : nameAt buf q nsz ≠ trailerName

/-- Where the round at `q` leaves the parser, if it does not end the loop. -/
def nextPosition (buf : Bytes) (q : Int) : Option Int :=
  if HeaderAt buf q then
    (nameSize? buf q).bind fun nsz => (fileSize? buf q).bind fun fsz =>
      if nameAt buf q nsz = trailerName then none else some (advance q nsz fsz)
  else none

/-- Where the loop is after so many rounds, if it has not ended. -/
def positionAt (buf : Bytes) : ℕ → Option Int := orbit (nextPosition buf) 0

theorem nextPosition_eq_some {buf : Bytes} {q q' : Int} :
    nextPosition buf q = some q' ↔ ∃ nsz fsz, GoesOn buf q nsz fsz ∧ q' = advance q nsz fsz := by
  rw [nextPosition]
  constructor
  · intro h
    split_ifs at h with hheader
    obtain ⟨nsz, hnsz, h⟩ := Option.bind_eq_some_iff.mp h
    obtain ⟨fsz, hfsz, h⟩ := Option.bind_eq_some_iff.mp h
    split_ifs at h with hlast
    exact ⟨nsz, fsz, ⟨hheader, hnsz, hfsz, hlast⟩, (Option.some.inj h).symm⟩
  · rintro ⟨nsz, fsz, h, rfl⟩
    rw [if_pos h.header, h.nameSize, Option.bind_some, h.fileSize, Option.bind_some,
      if_neg h.more]

/-- A round that goes on. -/
theorem cpioLoop_of_next {buf : Bytes} {q q' : Int} (h : nextPosition buf q = some q') (fuel : ℕ) :
    ∃ item : Item, cpioLoop buf (fuel + 1) q =
      (cpioLoop buf fuel q').map fun r => r.map fun t => (item :: t.1, t.2) := by
  obtain ⟨nsz, fsz, go, rfl⟩ := nextPosition_eq_some.mp h
  rw [cpioLoop_of_sizes go.header go.nameSize go.fileSize, if_neg go.more]
  exact ⟨_, rfl⟩

/-- A round that does not go on ends the loop. -/
theorem cpioLoop_of_last {buf : Bytes} {q : Int} (h : nextPosition buf q = none) (fuel : ℕ) :
    cpioLoop buf (fuel + 1) q ≠ none := by
  rcases header_cases buf q with hno | ⟨hheader, hsize⟩ | ⟨nsz, fsz, hheader, hnsz, hfsz⟩
  · rw [cpioLoop_of_no_header hno]
    exact Option.some_ne_none _
  · rw [cpioLoop_of_no_size hheader hsize]
    exact Option.some_ne_none _
  · have hlast : nameAt buf q nsz = trailerName := by
      by_contra hmore
      cases h.symm.trans (nextPosition_eq_some.mpr ⟨nsz, fsz, ⟨hheader, hnsz, hfsz, hmore⟩, rfl⟩)
    rw [cpioLoop_of_sizes hheader hnsz hfsz, if_pos hlast]
    exact Option.some_ne_none _

/-! ### Many rounds -/

/-- The loop runs out of fuel exactly if all rounds go on. -/
theorem cpioLoop_eq_none_iff {buf : Bytes} {q : Int} (fuel : ℕ) :
    cpioLoop buf fuel q = none ↔ orbit (nextPosition buf) q fuel ≠ none := by
  induction fuel generalizing q with
  | zero => exact iff_of_true rfl (Option.some_ne_none q)
  | succ fuel ih =>
    rw [orbit_succ']
    cases hnext : nextPosition buf q with
    | none => exact iff_of_false (cpioLoop_of_last hnext fuel) (not_not.mpr rfl)
    | some q' =>
      obtain ⟨item, hloop⟩ := cpioLoop_of_next hnext fuel
      rw [hloop, Option.map_eq_none_iff, ih, Option.bind_some]

theorem cpioParse_ne_none_iff {buf : Bytes} (fuel : ℕ) :
    (∃ r, cpioParse fuel buf = some r) ↔ positionAt buf fuel = none := by
  rw [← Option.ne_none_iff_exists', cpioParse, ne_eq, Option.map_eq_none_iff, cpioLoop_eq_none_iff,
    not_not]
  rfl

/-- What is raised in a round is raised by the loop. -/
theorem cpioLoop_error {buf : Bytes} {q q' : Int} {f : Failure} {fuel : ℕ} (n : ℕ)
    (hq : orbit (nextPosition buf) q n = some q') (h : cpioLoop buf fuel q' = some (.error f)) :
    cpioLoop buf (n + fuel) q = some (.error f) := by
  induction n generalizing q with
  | zero =>
    obtain rfl : q = q' := Option.some.inj hq
    rwa [Nat.zero_add]
  | succ n ih =>
    rw [orbit_succ'] at hq
    obtain ⟨p, hp, hq⟩ := Option.bind_eq_some_iff.mp hq
    obtain ⟨item, hloop⟩ := cpioLoop_of_next hp (n + fuel)
    rw [Nat.add_right_comm, hloop, ih hq]
    rfl

/-- **A field that is no number raises.** -/
theorem cpioParse_raises {buf : Bytes} {q : Int} {n : ℕ} (hq : positionAt buf n = some q)
    (hheader : HeaderAt buf q) (hsize : nameSize? buf q = none ∨ fileSize? buf q = none) :
    cpioParse (n + 1) buf = some (.error .valueError) := by
  rw [cpioParse, cpioLoop_error n hq (cpioLoop_of_no_size hheader hsize 0)]
  rfl

/-! ### Positions -/

/-- Two sizes that take the parser forward: rounded up to whole words, the header with the name and
the data are more than nothing together. -/
def Advances (nsz fsz : Int) : Prop := 0 < (nsz + 113) / 4 + (fsz + 3) / 4

instance (nsz fsz : Int) : Decidable (Advances nsz fsz) := inferInstanceAs (Decidable (_ < _))

theorem advances_of_nonneg {nsz fsz : Int} (hn : 0 ≤ nsz) (hf : 0 ≤ fsz) : Advances nsz fsz := by
  rw [Advances]
  omega

/-- Positions are those of whole words. -/
theorem positionAt_mod {buf : Bytes} {q : Int} {n : ℕ} (h : positionAt buf n = some q) :
    q % 4 = 0 := by
  refine invariant (P := fun q => q % 4 = 0) rfl (fun q q' _ hstep => ?_) h
  obtain ⟨nsz, fsz, -, rfl⟩ := nextPosition_eq_some.mp hstep
  exact Int.mul_emod_left _ 4

/-- **A round adds** what depends on the sizes only. -/
theorem advance_eq {q : Int} (hq : q % 4 = 0) (nsz fsz : Int) :
    advance q nsz fsz = q + 4 * ((nsz + 113) / 4 + (fsz + 3) / 4) := by
  rw [advance]
  omega

theorem lt_advance_iff {q : Int} (hq : q % 4 = 0) {nsz fsz : Int} :
    q < advance q nsz fsz ↔ Advances nsz fsz := by
  rw [advance_eq hq, Advances]
  omega

/-- No header is found further back than the string is long. -/
theorem HeaderAt.lower {buf : Bytes} {q : Int} (h : HeaderAt buf q) : -(buf.length : Int) ≤ q := by
  by_contra hlow
  have hlen : (pySlice buf q (q + 6)).length = 6 := congrArg List.length h.2
  rw [pySlice, length_slice, bound, bound] at hlen
  split_ifs at hlen <;> omega

/-- Where headers can be. -/
def positions (buf : Bytes) : Finset Int :=
  (Finset.range (buf.length / 4 + (buf.length - 110) / 4 + 1)).image fun k : ℕ =>
    4 * ((k : Int) - (buf.length / 4 : ℕ))

theorem mem_positions {buf : Bytes} {q : Int} (hq : q % 4 = 0) (h : HeaderAt buf q) :
    q ∈ positions buf := by
  have hlow := h.lower
  have hhigh := h.1
  refine Finset.mem_image.mpr ⟨(q / 4 + (buf.length / 4 : ℕ)).toNat, Finset.mem_range.mpr ?_, ?_⟩
  · omega
  · omega

/-- There are fewer of them than bytes. -/
theorem card_positions_lt {buf : Bytes} (h : 110 ≤ buf.length) :
    (positions buf).card < buf.length := by
  refine Finset.card_image_le.trans_lt ?_
  rw [Finset.card_range]
  omega

theorem mem_positions_of_next {buf : Bytes} (n : ℕ) (q q' : Int) (hq : positionAt buf n = some q)
    (hnext : nextPosition buf q = some q') : q ∈ positions buf := by
  obtain ⟨nsz, fsz, go, -⟩ := nextPosition_eq_some.mp hnext
  exact mem_positions (positionAt_mod hq) go.header

/-- **The loop ends exactly if it is nowhere twice.** -/
theorem parse_ends_iff (buf : Bytes) :
    (∃ fuel r, cpioParse fuel buf = some r) ↔ Distinct (nextPosition buf) 0 := by
  simp only [cpioParse_ne_none_iff]
  exact ⟨Ends.distinct, fun h => h.ends mem_positions_of_next⟩

/-- **If the loop ends**, it goes into its body fewer times than there are bytes. -/
theorem few_rounds {buf : Bytes} (hends : ∃ fuel r, cpioParse fuel buf = some r) {n : ℕ} {q : Int}
    (hq : positionAt buf n = some q) (hin : q + 110 ≤ buf.length) : n < buf.length := by
  cases n with
  | zero =>
    obtain rfl : 0 = q := Option.some.inj hq
    omega
  | succ n =>
    -- the first round is at a header
    obtain ⟨q₁, hq₁⟩ := exists_of_le (Nat.le_add_left 1 n) hq
    obtain ⟨q₀, hq₀, hfirst⟩ := exists_of_orbit_succ hq₁
    obtain rfl : 0 = q₀ := Option.some.inj hq₀
    obtain ⟨nsz, fsz, go, -⟩ := nextPosition_eq_some.mp hfirst
    have hlen : 110 ≤ buf.length := by
      have hfit := go.header.1
      omega
    have hle := ((parse_ends_iff buf).mp hends).le_card mem_positions_of_next hq
    exact hle.trans_lt (card_positions_lt hlen)

/-! ### When everything is as it should be -/

/-- **What is wanted of the loop.** -/
structure EndsInTime (buf : Bytes) : Prop where
  /-- It ends. -/
  ends : ∃ r, cpioParse (buf.length + 1) buf = some r
  /-- It goes into its body as often as there are bytes, at most. -/
  few : ∀ n q, positionAt buf n = some q → q + 110 ≤ buf.length → n < buf.length
  /-- Each round that does not end it takes it forward. -/
  rising : ∀ n q q', positionAt buf n = some q → nextPosition buf q = some q' → q < q'
  /-- A field that is no number raises. -/
  raises : ∀ n q, positionAt buf n = some q → HeaderAt buf q →
    nameSize? buf q = none ∨ fileSize? buf q = none →
      cpioParse (n + 1) buf = some (.error .valueError)

/-- A loop that always goes forward ends. -/
theorem few_of_rising {buf : Bytes}
    (rising : ∀ n q q', positionAt buf n = some q → nextPosition buf q = some q' → q < q') {n : ℕ}
    {q : Int} (hq : positionAt buf n = some q) (hin : q + 110 ≤ buf.length) : n < buf.length := by
  have hclimb := climb id rising hq
  simp only [id_eq] at hclimb
  omega

/-- Headers that advance are enough. -/
theorem endsInTime_of_advances {buf : Bytes} (h : ∀ n q nsz fsz, positionAt buf n = some q →
    GoesOn buf q nsz fsz → Advances nsz fsz) : EndsInTime buf := by
  have rising : ∀ n q q', positionAt buf n = some q → nextPosition buf q = some q' → q < q' := by
    intro n q q' hq hnext
    obtain ⟨nsz, fsz, go, rfl⟩ := nextPosition_eq_some.mp hnext
    exact (lt_advance_iff (positionAt_mod hq)).mpr (h n q nsz fsz hq go)
  refine ⟨(cpioParse_ne_none_iff _).mpr ?_, fun n q hq hin => few_of_rising rising hq hin, rising,
    fun n q hq hheader hsize => cpioParse_raises hq hheader hsize⟩
  refine Option.eq_none_iff_forall_ne_some.mpr fun q hq => ?_
  -- the last of the rounds would be one too many
  obtain ⟨p, hp, hnext⟩ := exists_of_orbit_succ hq
  obtain ⟨nsz, fsz, go, -⟩ := nextPosition_eq_some.mp hnext
  exact Nat.lt_irrefl _ (few_of_rising rising hp go.header.1)

/-- **The loop is as it should be exactly if all headers it comes to advance.** -/
theorem endsInTime_iff (buf : Bytes) :
    EndsInTime buf ↔ ∀ n q nsz fsz, positionAt buf n = some q → GoesOn buf q nsz fsz →
      Advances nsz fsz := by
  refine ⟨fun h n q nsz fsz hq go => ?_, endsInTime_of_advances⟩
  exact (lt_advance_iff (positionAt_mod hq)).mp
    (h.rising n q _ hq (nextPosition_eq_some.mpr ⟨nsz, fsz, go, rfl⟩))

/-- **Without minus signs in the sizes** everything is as it should be. -/
theorem endsInTime_of_no_minus {buf : Bytes} (h : ∀ n q, positionAt buf n = some q →
    45 ∉ slice (pySlice buf q (q + 110)) 94 102 ∧ 45 ∉ slice (pySlice buf q (q + 110)) 54 62) :
    EndsInTime buf := by
  refine endsInTime_of_advances fun n q nsz fsz hq go => ?_
  obtain ⟨hname, hfile⟩ := h n q hq
  exact advances_of_nonneg (Hex.nonneg_of_parse hname go.nameSize)
    (Hex.nonneg_of_parse hfile go.fileSize)

/-- A header whose data have the size `-0000070`: they end where the header begins. -/
def backwards : Bytes :=
  magicNewc ++ List.replicate 48 48 ++ [45, 48, 48, 48, 48, 48, 55, 48] ++ List.replicate 32 48 ++
    [48, 48, 48, 48, 48, 48, 48, 49] ++ List.replicate 8 48

/-- The parser goes back to it again and again. -/
theorem endsInTime_not_always : ¬ ∀ buf : Bytes, EndsInTime buf := by
  intro h
  have hback : orbit (nextPosition backwards) 0 1 = some 0 := by decide +kernel
  have hends := (cpioParse_ne_none_iff _).mp (h backwards).ends
  exact not_ends_of_return Nat.one_pos hback ⟨_, hends⟩

end Bootimg

end A1000

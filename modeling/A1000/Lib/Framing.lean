import A1000.Lib.Run

/-!
# Reading a stream of words in pieces

A reader is called with what is available of a stream: it takes some of it, goes to another state
and may deliver something. A word is read when, however much is available at each call, the reader
takes at least one element each time, never goes past the end of the word and delivers at the end
only. A reader that reads each of some words reads every stream of them, and how the stream is cut
into pieces makes no difference.

## Main definitions

* `Framing.ReadsWord` — how one word is read
* `Framing.step` — one call on a stream, with some number of elements available

## Main results

* `Framing.Follows.step` — one call keeps the place in the stream
* `Framing.run_follows` — so does every run
* `Framing.Follows.delivered_isPrefix`, `Framing.Follows.delivered_eq` — what has been delivered
* `Framing.Follows.progress` — a call is always possible, and takes something
-/

namespace Framing

open StepSystem

variable {σ β δ ι : Type*}

/-- What a call of a reader does. -/
structure Took (σ δ : Type*) where
  count : ℕ
  state : σ
  delivered : Option δ
  deriving DecidableEq, Repr

/-- A call of a reader, with what is available; `none` when it fails. -/
abbrev Reader (σ β δ : Type*) := σ → List β → Option (Took σ δ)

/-- **How a word is read.** `After u` holds of the reader's state when the beginning `u` of the
word has been read, and `Idle` between the words. -/
structure ReadsWord (read : Reader σ β δ) (Idle : σ → Prop) (After : List β → σ → Prop)
    (word : List β) (d : Option δ) : Prop where
  ne_nil : word ≠ []
  start : ∀ {s}, Idle s → After [] s
  more : ∀ {u v avail rest s}, word = u ++ v → v ≠ [] → avail ≠ [] → avail <+: v ++ rest →
    After u s → ∃ r, read s avail = some r ∧ 1 ≤ r.count ∧ r.count ≤ avail.length ∧
      ((r.count < v.length ∧ r.delivered = none ∧ After (u ++ v.take r.count) r.state) ∨
        (r.count = v.length ∧ r.delivered = d ∧ Idle r.state))

/-- A reader and what it has not read yet. -/
structure Input (σ β : Type*) where
  state : σ
  unread : List β
  deriving DecidableEq, Repr

/-- A call when `n` elements are available. -/
def step (read : Reader σ β δ) (s : Input σ β) (n : ℕ) : Option (Input σ β × Option δ) :=
  if 1 ≤ n ∧ n ≤ s.unread.length then
    (read s.state (s.unread.take n)).map fun r =>
      (⟨r.state, s.unread.drop r.count⟩, r.delivered)
  else none

/-- Everything delivered. -/
def delivered (tr : List (ℕ × Option δ)) : List δ := tr.filterMap Prod.snd

@[simp] theorem delivered_nil : delivered ([] : List (ℕ × Option δ)) = [] := rfl

theorem delivered_snoc (tr : List (ℕ × Option δ)) (n : ℕ) (o : Option δ) :
    delivered (tr ++ [(n, o)]) = delivered tr ++ o.toList := by
  cases o <;> simp [delivered]

/-! ### Streams of words -/

section Stream

variable {read : Reader σ β δ} {Idle : σ → Prop} {After : ι → List β → σ → Prop}
  {word : ι → List β} {delivery : ι → Option δ} {items : List ι}

/-- The place in the stream: some of the items have been read, and the beginning of the next. -/
structure Follows (Idle : σ → Prop) (After : ι → List β → σ → Prop) (word : ι → List β)
    (delivery : ι → Option δ) (items : List ι) (tr : List (ℕ × Option δ)) (s : Input σ β) :
    Prop where
  calls : tr.length + s.unread.length ≤ (items.flatMap word).length
  place : ∃ done rest, items = done ++ rest ∧ delivered tr = done.filterMap delivery ∧
    ((Idle s.state ∧ s.unread = rest.flatMap word) ∨
      ∃ i rest' u v, rest = i :: rest' ∧ word i = u ++ v ∧ v ≠ [] ∧ After i u s.state ∧
        s.unread = v ++ rest'.flatMap word)

/-- As long as something is unread, the reader is inside a word. -/
theorem Follows.inside {tr : List (ℕ × Option δ)} {s : Input σ β}
    (reads : ∀ i ∈ items, ReadsWord read Idle (After i) (word i) (delivery i))
    (h : Follows Idle After word delivery items tr s) (hs : s.unread ≠ []) :
    ∃ done i rest u v, items = done ++ i :: rest ∧ delivered tr = done.filterMap delivery ∧
      word i = u ++ v ∧ v ≠ [] ∧ After i u s.state ∧ s.unread = v ++ rest.flatMap word := by
  obtain ⟨done, rest, hitems, hdone, ⟨hidle, hunread⟩ | ⟨i, rest', u, v, rfl, hin⟩⟩ := h.place
  · cases rest with
    | nil => exact absurd hunread hs
    | cons i rest =>
      have hi := reads i (by simp [hitems])
      exact ⟨done, i, rest, [], word i, hitems, hdone, rfl, hi.ne_nil, hi.start hidle, hunread⟩
  · exact ⟨done, i, rest', u, v, hitems, hdone, hin⟩

/-- **What one call does.** -/
theorem Follows.call {tr : List (ℕ × Option δ)} {s : Input σ β} {n : ℕ}
    (reads : ∀ i ∈ items, ReadsWord read Idle (After i) (word i) (delivery i))
    (h : Follows Idle After word delivery items tr s) (hn : 1 ≤ n) (hle : n ≤ s.unread.length) :
    ∃ r, read s.state (s.unread.take n) = some r ∧ 1 ≤ r.count ∧ r.count ≤ n ∧
      Follows Idle After word delivery items (tr ++ [(n, r.delivered)])
        ⟨r.state, s.unread.drop r.count⟩ := by
  have hs : s.unread ≠ [] := List.ne_nil_of_length_pos (by omega)
  obtain ⟨done, i, rest, u, v, hitems, hdone, hword, hv, hafter, hunread⟩ := h.inside reads hs
  have havail : s.unread.take n ≠ [] := List.ne_nil_of_length_pos (by rw [List.length_take]; omega)
  have havail' : s.unread.take n <+: v ++ rest.flatMap word := by
    rw [← hunread]
    exact List.take_prefix n s.unread
  obtain ⟨r, hr, hpos, hcount, hpart⟩ := (reads i (by simp [hitems])).more hword hv havail
    havail' hafter
  rw [List.length_take_of_le hle] at hcount
  refine ⟨r, hr, hpos, hcount, ?_, ?_⟩
  · have hcalls := h.calls
    simp only [List.length_append, List.length_singleton, List.length_drop]
    omega
  · obtain ⟨hlt, hnone, hafter'⟩ | ⟨heq, hsome, hidle⟩ := hpart
    · refine ⟨done, i :: rest, hitems, ?_, .inr ⟨i, rest, u ++ v.take r.count, v.drop r.count, rfl,
        ?_, ?_, hafter', ?_⟩⟩
      · rw [delivered_snoc, hnone, hdone, Option.toList_none, List.append_nil]
      · rw [List.append_assoc, List.take_append_drop, hword]
      · exact List.ne_nil_of_length_pos (by rw [List.length_drop]; omega)
      · rw [hunread, List.drop_append_of_le_length (by omega)]
    · refine ⟨done ++ [i], rest, by simpa using hitems, ?_, .inl ⟨hidle, ?_⟩⟩
      · rw [delivered_snoc, hsome, hdone, List.filterMap_append]
        cases hd : delivery i <;> simp [hd]
      · rw [hunread, heq, List.drop_left]

/-- One call keeps the place. -/
theorem Follows.step {tr : List (ℕ × Option δ)} {s t : Input σ β} {n : ℕ} {o : Option δ}
    (reads : ∀ i ∈ items, ReadsWord read Idle (After i) (word i) (delivery i))
    (h : Follows Idle After word delivery items tr s) (hstep : step read s n = some (t, o)) :
    Follows Idle After word delivery items (tr ++ [(n, o)]) t := by
  unfold Framing.step at hstep
  split at hstep
  · rename_i hn
    obtain ⟨r, hr, -, -, hfollows⟩ := h.call reads hn.1 hn.2
    rw [hr] at hstep
    cases hstep
    exact hfollows
  · cases hstep

/-- **Every run keeps the place.** -/
theorem run_follows (reads : ∀ i ∈ items, ReadsWord read Idle (After i) (word i) (delivery i))
    {s₀ : σ} (hidle : Idle s₀) {tr : List (ℕ × Option δ)} {s : Input σ β}
    (h : Run (step read) ⟨s₀, items.flatMap word⟩ tr s) :
    Follows Idle After word delivery items tr s :=
  h.invariant ⟨by simp, [], items, rfl, rfl, .inl ⟨hidle, rfl⟩⟩
    fun hfollows _ hstep => hfollows.step reads hstep

/-- What has been delivered is the beginning of what is to be. -/
theorem Follows.delivered_isPrefix {tr : List (ℕ × Option δ)} {s : Input σ β}
    (h : Follows Idle After word delivery items tr s) :
    delivered tr <+: items.filterMap delivery := by
  obtain ⟨done, rest, rfl, hdone, -⟩ := h.place
  rw [hdone, List.filterMap_append]
  exact List.prefix_append ..

/-- When nothing is unread, everything has been delivered. -/
theorem Follows.delivered_eq {tr : List (ℕ × Option δ)} {s : Input σ β}
    (reads : ∀ i ∈ items, ReadsWord read Idle (After i) (word i) (delivery i))
    (h : Follows Idle After word delivery items tr s) (hs : s.unread = []) :
    delivered tr = items.filterMap delivery ∧ Idle s.state := by
  obtain ⟨done, rest, rfl, hdone, ⟨hidle, hunread⟩ | ⟨i, rest', u, v, -, -, hv, -, hunread⟩⟩ :=
    h.place
  · cases rest with
    | nil => exact ⟨by rw [hdone, List.append_nil], hidle⟩
    | cons i rest =>
      have hword := (reads i (by simp)).ne_nil
      rw [hs, List.flatMap_cons, eq_comm, List.append_eq_nil_iff] at hunread
      exact absurd hunread.1 hword
  · rw [hs, eq_comm, List.append_eq_nil_iff] at hunread
    exact absurd hunread.1 hv

/-- Whatever is available, a call is possible and takes some of it. -/
theorem Follows.progress {tr : List (ℕ × Option δ)} {s : Input σ β} {n : ℕ}
    (reads : ∀ i ∈ items, ReadsWord read Idle (After i) (word i) (delivery i))
    (h : Follows Idle After word delivery items tr s) (hn : 1 ≤ n) (hle : n ≤ s.unread.length) :
    ∃ t o, Framing.step read s n = some (t, o) ∧ t.unread.length < s.unread.length := by
  obtain ⟨r, hr, hpos, hcount, -⟩ := h.call reads hn hle
  refine ⟨⟨r.state, s.unread.drop r.count⟩, r.delivered, ?_, ?_⟩
  · rw [Framing.step, if_pos ⟨hn, hle⟩, hr]
    rfl
  · rw [List.length_drop]
    omega

end Stream

end Framing

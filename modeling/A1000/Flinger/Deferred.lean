import A1000.Flinger.Barrier

/-!
# Deferred transactions

What the clients, the main thread and the queues of frames do, in whatever order, keeps the layers
and their sync points in lock step. So a layer commits its states in the order in which they were
pushed, each of them once and none before its frame has come; a frame that other layers have
deferred transactions for is latched after they have been committed, when these were deferred in the
order of the frames; and the only sync points that hold it back are told of it, and waited at.

## Main definitions

* `Flinger.Barrier.Resting` — a layer between two calls
* `Flinger.Barrier.Ordered` — transactions are deferred in the order of the frames

## Main results

* `Flinger.Barrier.log_of_run` — the errors about sync points are never logged
* `Flinger.Barrier.committed_of_run` — states are committed in order, and not too early
* `Flinger.Barrier.committed_of_latched` — and not too late
* `Flinger.Barrier.waits_of_held_back` — what holds a frame back
-/

namespace A1000

namespace Flinger

namespace Barrier

open StepSystem Heap

variable {D : Type*} {s t : Sys D} {tr : List (Input D × Output)} {points : ℕ → SyncPoint}
  {l : ℕ} {x x' : Layer D}

/-! ### Changes of one layer -/

/-- A layer whose states, sync points and frames are the same. -/
theorem plain_of_eq (hremote : x'.remoteSyncPoints = x.remoteSyncPoints)
    (hlocal : x'.localSyncPoints = x.localSyncPoints)
    (hpending : x'.pendingStates = x.pendingStates) (hpushed : x'.pushed = x.pushed)
    (hcommitted : x'.committed = x.committed) (hqueue : x'.queueItems = x.queueItems)
    (hnumber : x'.currentFrameNumber = x.currentFrameNumber) : Plain tr points l x x' where
  remote := hremote
  committed := hcommitted
  pushed := ⟨[], hpushed.trans (List.append_nil _).symm, hpending.trans (List.append_nil _).symm,
    by simp⟩
  locals p hp := hlocal ▸ hp
  held p hp := .inl (hlocal ▸ hp)
  queue n hn := .inl (hqueue ▸ hn)
  number := .inl hnumber

theorem plain_dequeue (n : ℕ) : Plain tr points l x (x.dequeue n) where
  remote := rfl
  committed := rfl
  pushed := ⟨[], (List.append_nil _).symm, (List.append_nil _).symm, by simp⟩
  locals _ hp := hp
  held _ hp := .inl hp
  queue _ hm := .inl ((List.dropWhile_sublist _).subset (List.mem_of_mem_tail hm))
  number := .inl rfl

theorem plain_latched {n : ℕ} (hn : Come tr l n) : Plain tr points l x (x.latched points n) where
  remote := rfl
  committed := rfl
  pushed := ⟨[], (List.append_nil _).symm, (List.append_nil _).symm, by simp⟩
  locals _ hp := (List.mem_filter.mp hp).1
  held p hp := by
    by_cases happlied : (points p).transactionIsApplied = true
    · exact .inr happlied
    · refine .inl (List.mem_filter.mpr ⟨hp, ?_⟩)
      simp [happlied]
  queue _ hm := .inl hm
  number := .inr hn

theorem Plain.trans {x'' : Layer D} (h : Plain tr points l x x') (h' : Plain tr points l x' x'') :
    Plain tr points l x x'' where
  remote := h'.remote.trans h.remote
  committed := h'.committed.trans h.committed
  pushed := by
    obtain ⟨es, hpushed, hpending, hes⟩ := h.pushed
    obtain ⟨es', hpushed', hpending', hes'⟩ := h'.pushed
    refine ⟨es ++ es', ?_, ?_, fun e he => ?_⟩
    · rw [hpushed', hpushed, List.append_assoc]
    · rw [hpending', hpending, List.map_append, List.append_assoc]
    · exact (List.mem_append.mp he).elim (hes e) (hes' e)
  locals p hp := h.locals p (h'.locals p hp)
  held p hp := (h.held p hp).elim (h'.held p) .inr
  queue n hn := (h'.queue n hn).elim (h.queue n) .inr
  number := by
    rcases h'.number with heq | hcome
    · rw [heq]
      exact h.number
    · exact .inr hcome

theorem plain_refl : Plain tr points l x x := plain_of_eq rfl rfl rfl rfl rfl rfl rfl

theorem plain_fail (q : Bool) : Plain tr points l x (updated.fail x q) where
  remote := by cases q <;> rfl
  committed := by cases q <;> rfl
  pushed := ⟨[], by cases q <;> simp [updated.fail], by cases q <;> simp [updated.fail], by simp⟩
  locals _ hp := by cases q <;> exact hp
  held _ hp := by cases q <;> exact .inl hp
  queue n hn := by
    cases q with
    | false => exact .inl hn
    | true => simp [updated.fail] at hn
  number := by cases q <;> exact .inl rfl

theorem plain_updated {r : Updated}
    (hcome : ∀ q n b, r = .latched q n b → Come tr l n) :
    Plain tr points l x (updated points r x) := by
  cases r with
  | presentLater => exact plain_refl
  | rejected q =>
    cases q with
    | false => exact plain_refl
    | true =>
      refine ⟨rfl, rfl, ⟨[], ?_, ?_, by simp⟩, fun _ hp => hp, fun _ hp => .inl hp, ?_, .inl rfl⟩
      · exact (List.append_nil _).symm
      · exact (List.append_nil _).symm
      · exact fun n hn => .inl (List.mem_of_mem_tail hn)
  | failed q => exact plain_fail q
  | latched q n b =>
    have hn := hcome q n b rfl
    simp only [updated]
    split
    · exact plain_fail q
    · have hdequeue : Plain tr points l x (if q then x.dequeue n else x) := by
        split
        · exact plain_dequeue n
        · exact plain_refl
      split
      · exact hdequeue.trans (plain_latched hn)
      · exact hdequeue

theorem Sound.deferTransactionUntil (h : Sound s tr) (b : Option ℕ) (n : ℕ) :
    Sound (deferTransactionUntil s l b n).1 tr := by
  have hedit : Sound (s.modify l fun x => { x with
      current := { x.current with barrierLayer := b, frameNumber := n, modified := true } }) tr :=
    h.modify fun _ _ => plain_of_eq rfl rfl rfl rfl rfl rfl rfl
  unfold Barrier.deferTransactionUntil
  dsimp only
  split
  · exact hedit
  · rename_i x hx
    exact (hedit.pushPendingState hx rfl).modify fun _ _ => plain_of_eq rfl rfl rfl rfl rfl rfl rfl

/-- What happens to a layer that exists. -/
theorem of_onLayer {f : Layer D → Option (Sys D × Output)} {r : Sys D × Output}
    (h : onLayer s l f = some r) : ∃ x, s.layers l = some x ∧ f x = some r :=
  Option.bind_eq_some_iff.mp h

theorem of_onMain {f : Layer D → Sys D × Output} {r : Sys D × Output}
    (h : onMain s l f = some r) : s.latching = none ∧ ∃ x, s.layers l = some x ∧ f x = r := by
  unfold onMain at h
  split at h
  · obtain ⟨x, hx, hr⟩ := of_onLayer h
    exact ⟨‹_›, x, hx, Option.some.inj hr⟩
  · cases h

/-- A frame that comes in joins the queue. -/
theorem of_onFrameAvailable {n : ℕ} (h : x.onFrameAvailable n = some x') :
    x' = { x with
      queueItems := x.queueItems ++ [n]
      queuedFrames := x.queuedFrames + 1
      lastFrameNumberReceived := n } := by
  simp only [Layer.onFrameAvailable] at h
  rw [Option.ite_none_left_eq_some] at h
  exact (Option.some.inj h.2).symm

theorem sound_start : Sound (start : Sys D) [] where
  layer _ _ hx := by cases hx
  point _ hp := absurd hp (Nat.not_lt_zero _)
  fresh _ _ := rfl

/-! ### Between two calls -/

/-- The layer comes back to what it has deferred. -/
def Layer.Flagged (x : Layer D) : Prop :=
  (∃ st ∈ x.pendingStates, st.barrierLayer ≠ none) → x.transactionNeeded = true

/-- A layer between two calls is not about to defer anything. -/
structure Resting (x : Layer D) : Prop where
  idle : x.current.barrierLayer = none
  flagged : x.Flagged

/-- All layers are resting. -/
def AllResting (s : Sys D) : Prop := ∀ l x, s.layers l = some x → Resting x

theorem AllResting.modify (h : AllResting s) {f : Layer D → Layer D}
    (hf : ∀ x, s.layers l = some x → Resting x → Resting (f x)) : AllResting (s.modify l f) := by
  intro k y hy
  rcases of_modify hy with ⟨-, hk⟩ | ⟨rfl, x, hx, rfl⟩
  · exact h k y hk
  · exact hf x hx (h k x hx)

/-- The layers are resting but for the layer `l`. -/
theorem allResting_modify {f : Layer D → Layer D}
    (h : ∀ k x, k ≠ l → s.layers k = some x → Resting x)
    (hf : ∀ x, s.layers l = some x → Resting (f x)) : AllResting (s.modify l f) := by
  intro k y hy
  rcases of_modify hy with ⟨hne, hk⟩ | ⟨rfl, x, hx, rfl⟩
  · exact h k y hne hk
  · exact hf x hx

theorem AllResting.of_layers (h : s.layers = t.layers) (ht : AllResting t) : AllResting s :=
  fun l x hx => ht l x (h ▸ hx)

theorem AllResting.clearSyncPoints (depth : ℕ) :
    ∀ {s : Sys D} (l : ℕ), AllResting s → AllResting (clearSyncPoints depth l s) := by
  induction depth with
  | zero => exact fun _ h => h
  | succ depth ih =>
    intro s l h
    have hclear : ∀ {s : Sys D}, AllResting s → AllResting (clearLocal s l) := by
      intro s h
      unfold clearLocal
      split
      · exact h
      · exact AllResting.of_layers rfl (h.modify fun x _ hx => ⟨hx.idle, hx.flagged⟩)
    refine hclear ?_
    generalize ((s.layers l).map (·.children)).getD [] = children
    induction children generalizing s with
    | nil => exact h
    | cons child children ih' => exact ih' (ih child h)

/-- Without a barrier, a state that has been modified is pushed, and nothing else is done. -/
theorem pushPendingState_idle (h : x.current.barrierLayer = none) :
    pushPendingState s l x =
      (if x.current.modified then s.modify l (Layer.push none) else s, []) := by
  unfold pushPendingState
  rw [h]
  cases x.current.modified <;> rfl

/-! ### One step -/

variable {eLayerHidden : BitVec 32} [DecidableEq D]

theorem Sound.doTransaction (h : Sound s tr) (m : Mode) (hx : s.layers l = some x) :
    Sound (doTransaction eLayerHidden m s l x).1 tr := by
  have hflag : Sound (s.modify l fun x => { x with transactionNeeded := false }) tr :=
    h.modify fun _ _ => plain_of_eq rfl rfl rfl rfl rfl rfl rfl
  have hx' : (s.modify l fun x => { x with transactionNeeded := false }).layers l =
      some { x with transactionNeeded := false } := modify_eq_some hx
  have hpush := hflag.pushPendingState hx' rfl
  unfold Barrier.doTransaction
  dsimp only
  split
  · exact hpush
  · rename_i y hy
    have happly := hpush.apply hy y.current
    split
    · exact happly
    · refine Sound.modify ?_ fun _ _ => plain_of_eq rfl rfl rfl rfl rfl rfl rfl
      split
      · exact happly.clearSyncPoints _ l
      · exact happly

/-- **One step.** -/
theorem Sound.step {i : Input D} {o : Output} (h : Sound s tr)
    (hstep : step eLayerHidden s i = some (t, o)) : Sound t (tr ++ [(i, o)]) := by
  have hmono : Sound s (tr ++ [(i, o)]) := h.mono fun k n hcome => hcome.append _
  cases i with
  | create st =>
    cases hstep
    exact hmono.create st
  | destroy l =>
    obtain ⟨x, hx, hr⟩ := of_onLayer hstep
    split at hr
    · cases hr
    · cases hr
      exact hmono.destroy hx
  | set l st =>
    obtain ⟨x, -, hr⟩ := of_onLayer hstep
    cases hr
    exact hmono.modify fun _ _ => plain_of_eq rfl rfl rfl rfl rfl rfl rfl
  | setChildren l children =>
    obtain ⟨x, -, hr⟩ := of_onLayer hstep
    cases hr
    exact hmono.modify fun _ _ => plain_of_eq rfl rfl rfl rfl rfl rfl rfl
  | deferTransactionUntil l b n =>
    obtain ⟨x, -, hr⟩ := of_onLayer hstep
    cases hr
    exact hmono.deferTransactionUntil _ n
  | onFrameAvailable l n =>
    obtain ⟨x, hx, hr⟩ := of_onLayer hstep
    obtain ⟨x', hx', hr⟩ := Option.map_eq_some_iff.mp hr
    cases hr
    refine hmono.modify fun y hy => ?_
    obtain rfl := Option.some.inj (hx.symm.trans hy)
    obtain rfl := of_onFrameAvailable hx'
    refine ⟨rfl, rfl, ⟨[], by simp, by simp, by simp⟩, fun _ hp => hp, fun _ hp => .inl hp, ?_,
      .inl rfl⟩
    intro m hm
    refine (List.mem_append.mp hm).imp_right fun hm => ?_
    rw [List.mem_singleton.mp hm]
    exact come_snoc rfl
  | onFrameReplaced l n =>
    obtain ⟨x, hx, hr⟩ := of_onLayer hstep
    obtain ⟨r, hr', hr⟩ := Option.map_eq_some_iff.mp hr
    cases hr
    refine hmono.modify fun y hy => ?_
    obtain rfl := Option.some.inj (hx.symm.trans hy)
    simp only [Layer.onFrameReplaced] at hr'
    split at hr'
    · cases hr'
    · split at hr'
      · cases hr'
        exact plain_refl
      · cases hr'
        refine ⟨rfl, rfl, ⟨[], by simp, by simp, by simp⟩, fun _ hp => hp, fun _ hp => .inl hp, ?_,
          .inl rfl⟩
        intro m hm
        refine (List.mem_append.mp hm).imp List.mem_of_mem_dropLast fun hm => ?_
        rw [List.mem_singleton.mp hm]
        exact come_snoc rfl
  | notifyAvailableFrames l =>
    obtain ⟨-, x, hx, hr⟩ := of_onMain hstep
    cases hr
    exact hmono.notifyAvailableFrames hx
  | doTransaction l m =>
    simp only [Barrier.step] at hstep
    split at hstep
    · obtain ⟨x, hx, hr⟩ := of_onLayer hstep
      split at hr
      · cases hr
      · cases hr
        exact hmono.doTransaction m hx
    · cases hstep
  | onSidebandStreamChanged l =>
    obtain ⟨x, -, hr⟩ := of_onLayer hstep
    cases hr
    exact hmono.modify fun _ _ => plain_of_eq rfl rfl rfl rfl rfl rfl rfl
  | latchBuffer l sidebandStream =>
    obtain ⟨-, x, hx, hr⟩ := of_onMain hstep
    cases hr
    exact hmono.latchBuffer hx sidebandStream
  | updateTexImage l a r =>
    obtain ⟨x, hx, hr⟩ := of_onLayer hstep
    split at hr
    · cases hr
    · cases hr
      refine (hmono.modify fun y _ => ?_).latching none
      have hauto : Plain (tr ++ [(.updateTexImage l a r, silent)]) s.points l y
          { y with autoRefresh := a } := plain_of_eq rfl rfl rfl rfl rfl rfl rfl
      refine hauto.trans (plain_updated ?_)
      rintro q n b rfl
      exact come_snoc rfl
  | onPreComposition l =>
    obtain ⟨-, x, -, hr⟩ := of_onMain hstep
    cases hr
    exact hmono.modify fun _ _ => plain_of_eq rfl rfl rfl rfl rfl rfl rfl

/-- **The invariant of every run.** -/
theorem sound_of_run {C : Sys D → Input D → Prop}
    (h : RunWhere (Barrier.step eLayerHidden) C start tr s) : Sound s tr :=
  h.invariant (P := fun tr s => Sound s tr) sound_start fun hs _ hstep => hs.step hstep

/-- A transaction puts the layers to rest, and only `applyPendingStates` could log anything. -/
theorem AllResting.doTransaction (h : AllResting s) (hsound : Sound s tr) (m : Mode)
    (hx : s.layers l = some x) :
    AllResting (doTransaction eLayerHidden m s l x).1 ∧
      (doTransaction eLayerHidden m s l x).2.1 = [] := by
  have hidle := (h l x hx).idle
  let x₀ := { x with transactionNeeded := false }
  let s₁ := s.modify l fun x => { x with transactionNeeded := false }
  have hs₁ : Sound s₁ tr := hsound.modify fun _ _ => plain_of_eq rfl rfl rfl rfl rfl rfl rfl
  have hx₁ : s₁.layers l = some x₀ := modify_eq_some hx
  have hsound' := hs₁.pushPendingState hx₁ rfl
  -- the other layers, and the layer itself, after the state has been pushed
  obtain ⟨hrest, y, hy, hcur, hlog⟩ : (∀ k z, k ≠ l →
      (pushPendingState s₁ l x₀).1.layers k = some z → Resting z) ∧
      ∃ y, (pushPendingState s₁ l x₀).1.layers l = some y ∧ y.current.barrierLayer = none ∧
        (pushPendingState s₁ l x₀).2 = [] := by
    have hother : ∀ k z, k ≠ l → s₁.layers k = some z → Resting z := by
      intro k z hne hz
      rw [modify_layers, modify_of_ne _ _ hne] at hz
      exact h k z hz
    rw [pushPendingState_idle (show x₀.current.barrierLayer = none from hidle)]
    split
    · refine ⟨fun k z hne hz => ?_, x₀.push none, ?_, hidle, rfl⟩
      · rw [modify_layers, modify_of_ne _ _ hne] at hz
        exact hother k z hne hz
      · exact modify_eq_some hx₁
    · exact ⟨hother, x₀, hx₁, hidle, rfl⟩
  obtain ⟨-, hlog', -⟩ := (hsound'.layer l y hy).apply y.current
  have happly : AllResting ((pushPendingState s₁ l x₀).1.apply l
      (applyPendingStates y.pendingStates y.remoteSyncPoints
        (pushPendingState s₁ l x₀).1.points y.current)) := by
    refine AllResting.of_layers rfl (allResting_modify hrest fun z hz => ?_)
    obtain rfl := Option.some.inj (hy.symm.trans hz)
    refine ⟨hcur, ?_⟩
    rintro ⟨st, hst, -⟩
    simp only [Layer.apply] at hst ⊢
    cases happ : (applyPendingStates y.pendingStates y.remoteSyncPoints
      (pushPendingState s₁ l x₀).1.points y.current).pendingStates with
    | nil =>
      rw [happ] at hst
      cases hst
    | cons st' sts => simp
  unfold Barrier.doTransaction
  dsimp only
  split
  · rename_i hnone
    have hcon : some y = none := hy.symm.trans hnone
    cases hcon
  · rename_i y' hy'
    obtain rfl := Option.some.inj (hy.symm.trans hy')
    split
    · refine ⟨happly, ?_⟩
      dsimp only
      rw [hlog']
      exact (List.append_nil _).trans hlog
    · refine ⟨AllResting.modify ?_ fun z hz hrest => ⟨?_, hrest.flagged⟩, ?_⟩
      · split
        · exact happly.clearSyncPoints _ l
        · exact happly
      · dsimp only [latchGeometry]
        split
        · exact hcur
        · split
          · exact hcur
          · exact hcur
      · dsimp only
        rw [hlog']
        exact (List.append_nil _).trans hlog

omit [DecidableEq D] in
/-- What is pushed with a barrier sets the flag, and the other layers go on with what they have. -/
theorem of_pushPendingState (hx : s.layers l = some x) {k : ℕ} {z : Layer D}
    (hz : (pushPendingState s l x).1.layers k = some z) :
    ∃ z₀, s.layers k = some z₀ ∧ (k ≠ l → z.current = z₀.current) ∧ (z₀.Flagged → z.Flagged) := by
  have hfree : ∀ {z}, (s.modify l Layer.pushFree).layers k = some z →
      ∃ z₀, s.layers k = some z₀ ∧ (k ≠ l → z.current = z₀.current) ∧
        (z₀.Flagged → z.Flagged) := by
    intro z hz
    rcases of_modify hz with ⟨-, hz₁⟩ | ⟨rfl, z₁, hz₁, rfl⟩
    · exact ⟨z, hz₁, fun _ => rfl, id⟩
    · exact ⟨z₁, hz₁, fun hne => absurd rfl hne, fun _ _ => rfl⟩
  unfold pushPendingState at hz
  split at hz
  · exact ⟨z, hz, fun _ => rfl, id⟩
  · split at hz
    · rename_i hnone
      rcases of_modify hz with ⟨-, hz₁⟩ | ⟨rfl, z₁, hz₁, rfl⟩
      · exact ⟨z, hz₁, fun _ => rfl, id⟩
      · obtain rfl := Option.some.inj (hx.symm.trans hz₁)
        refine ⟨x, hz₁, fun hne => absurd rfl hne, fun hflag => ?_⟩
        rintro ⟨st, hst, hbarrier⟩
        rcases List.mem_append.mp hst with hst | hst
        · exact hflag ⟨st, hst, hbarrier⟩
        · rw [List.mem_singleton.mp hst] at hbarrier
          exact absurd hnone hbarrier
    · split at hz
      · exact hfree hz
      · split at hz
        · exact hfree hz
        · rcases of_modify hz with ⟨-, hz₁⟩ | ⟨rfl, z₁, hz₁, rfl⟩
          · rcases of_modify hz₁ with ⟨-, hz₂⟩ | ⟨rfl, z₂, hz₂, rfl⟩
            · exact ⟨z, hz₂, fun _ => rfl, id⟩
            · exact ⟨z₂, hz₂, fun _ => rfl, id⟩
          · rcases of_modify hz₁ with ⟨-, hz₂⟩ | ⟨rfl, z₂, hz₂, rfl⟩
            · exact ⟨z₁, hz₂, fun hne => absurd rfl hne, fun _ _ => rfl⟩
            · exact ⟨z₂, hz₂, fun hne => absurd rfl hne, fun _ _ => rfl⟩

omit [DecidableEq D] in
/-- To defer a transaction takes a barrier that exists, and leaves the layer idle. -/
theorem AllResting.deferTransactionUntil (h : AllResting s) {b : Option ℕ} {n : ℕ}
    (hb : ∀ k, b = some k → s.layers k ≠ none) (hx : s.layers l = some x) :
    AllResting (deferTransactionUntil s l b n).1 ∧ (deferTransactionUntil s l b n).2 = [] := by
  let x₀ : Layer D :=
    { x with current := { x.current with barrierLayer := b, frameNumber := n, modified := true } }
  let s₁ := s.modify l fun x => { x with
    current := { x.current with barrierLayer := b, frameNumber := n, modified := true } }
  have hx₁ : s₁.layers l = some x₀ := modify_eq_some hx
  have hs₁ : ∀ {k z}, s₁.layers k = some z →
      (k ≠ l → z.current.barrierLayer = none) ∧ z.Flagged := by
    intro k z hz
    rcases of_modify hz with ⟨-, hz₁⟩ | ⟨rfl, z₁, hz₁, rfl⟩
    · exact ⟨fun _ => (h k z hz₁).idle, (h k z hz₁).flagged⟩
    · exact ⟨fun hne => absurd rfl hne, (h k z₁ hz₁).flagged⟩
  unfold Barrier.deferTransactionUntil
  dsimp only
  split
  · rename_i hnone
    have hcon : some x₀ = none := hx₁.symm.trans hnone
    cases hcon
  · rename_i y hy
    obtain rfl : x₀ = y := Option.some.inj (hx₁.symm.trans hy)
    refine ⟨allResting_modify (fun k z hne hz => ?_) fun z hz => ?_, ?_⟩
    · obtain ⟨z₀, hz₀, hcur, hflag⟩ := of_pushPendingState hx₁ hz
      exact ⟨by rw [hcur hne]; exact (hs₁ hz₀).1 hne, hflag (hs₁ hz₀).2⟩
    · obtain ⟨z₀, hz₀, -, hflag⟩ := of_pushPendingState hx₁ hz
      exact ⟨rfl, hflag (hs₁ hz₀).2⟩
    · exact log_pushPendingState fun k hk => mt modify_eq_none.mp (hb k hk)

omit [DecidableEq D] in
theorem resting_updated (r : Updated) (h : Resting x) : Resting (updated points r x) := by
  obtain ⟨hcur, hpending, hneeded⟩ : (updated points r x).current = x.current ∧
      (updated points r x).pendingStates = x.pendingStates ∧
      (updated points r x).transactionNeeded = x.transactionNeeded := by
    cases r with
    | presentLater => exact ⟨rfl, rfl, rfl⟩
    | rejected q => cases q <;> exact ⟨rfl, rfl, rfl⟩
    | failed q => cases q <;> exact ⟨rfl, rfl, rfl⟩
    | latched q n b =>
      simp only [updated]
      split
      · cases q <;> exact ⟨rfl, rfl, rfl⟩
      · cases q <;> cases b <;> exact ⟨rfl, rfl, rfl⟩
  refine ⟨by rw [hcur]; exact h.idle, ?_⟩
  unfold Layer.Flagged
  rw [hpending, hneeded]
  exact h.flagged

/-- **One step** leaves all layers at rest, and logs nothing about sync points. -/
theorem AllResting.step {i : Input D} {o : Output} (h : AllResting s) (hsound : Sound s tr)
    (hstep : step eLayerHidden s i = some (t, o)) :
    AllResting t ∧ ∀ m ∈ o.log, m = .emptyQueue := by
  cases i with
  | create st =>
    cases hstep
    refine ⟨fun k y hy => ?_, by simp [silent]⟩
    dsimp only at hy
    split at hy
    · cases hy
      exact ⟨rfl, by simp [Layer.Flagged, Layer.ofState]⟩
    · exact h k y hy
  | destroy l =>
    obtain ⟨x, hx, hr⟩ := of_onLayer hstep
    split at hr
    · cases hr
    · cases hr
      refine ⟨fun k y hy => ?_, by simp [silent]⟩
      dsimp only [Barrier.destroy] at hy
      split at hy
      · cases hy
      · exact h k y hy
  | set l st =>
    obtain ⟨x, -, hr⟩ := of_onLayer hstep
    cases hr
    exact ⟨h.modify fun x _ hx => ⟨hx.idle, fun _ => rfl⟩, by simp [silent]⟩
  | setChildren l children =>
    obtain ⟨x, -, hr⟩ := of_onLayer hstep
    cases hr
    exact ⟨h.modify fun x _ hx => ⟨hx.idle, hx.flagged⟩, by simp [silent]⟩
  | deferTransactionUntil l b n =>
    obtain ⟨x, hx, hr⟩ := of_onLayer hstep
    cases hr
    have hb : ∀ k, (s.layers b).map (fun _ => b) = some k → s.layers k ≠ none := by
      intro k hk
      obtain ⟨y, hy, rfl⟩ := Option.map_eq_some_iff.mp hk
      rw [hy]
      exact Option.some_ne_none y
    obtain ⟨hrest, hlog⟩ := h.deferTransactionUntil (n := n) hb hx
    exact ⟨hrest, by simp [hlog]⟩
  | onFrameAvailable l n =>
    obtain ⟨x, hx, hr⟩ := of_onLayer hstep
    obtain ⟨x', hx', hr⟩ := Option.map_eq_some_iff.mp hr
    cases hr
    obtain rfl := of_onFrameAvailable hx'
    exact ⟨h.modify fun _ _ _ => ⟨(h l x hx).idle, (h l x hx).flagged⟩, by simp [silent]⟩
  | onFrameReplaced l n =>
    obtain ⟨x, hx, hr⟩ := of_onLayer hstep
    obtain ⟨r, hr', hr⟩ := Option.map_eq_some_iff.mp hr
    cases hr
    simp only [Layer.onFrameReplaced] at hr'
    split at hr'
    · cases hr'
    · split at hr'
      · cases hr'
        exact ⟨h.modify fun _ _ _ => h l x hx, by simp⟩
      · cases hr'
        exact ⟨h.modify fun _ _ _ => ⟨(h l x hx).idle, (h l x hx).flagged⟩, by simp⟩
  | notifyAvailableFrames l =>
    obtain ⟨-, x, -, hr⟩ := of_onMain hstep
    cases hr
    exact ⟨h, by simp [silent]⟩
  | doTransaction l m =>
    simp only [Barrier.step] at hstep
    split at hstep
    · obtain ⟨x, hx, hr⟩ := of_onLayer hstep
      split at hr
      · cases hr
      · cases hr
        obtain ⟨hrest, hlog⟩ := h.doTransaction hsound m hx
        exact ⟨hrest, by simp [hlog]⟩
    · cases hstep
  | onSidebandStreamChanged l =>
    obtain ⟨x, -, hr⟩ := of_onLayer hstep
    cases hr
    exact ⟨h.modify fun x _ hx => ⟨hx.idle, hx.flagged⟩, by simp [silent]⟩
  | latchBuffer l sidebandStream =>
    obtain ⟨-, x, -, hr⟩ := of_onMain hstep
    cases hr
    refine ⟨?_, by simp [silent]⟩
    unfold Barrier.latchBuffer
    split
    · exact h.modify fun y _ hy =>
        ⟨hy.idle, fun hst => by simp [Layer.latchSideband, hy.flagged hst]⟩
    · split
      · exact h
      · dsimp only
        split <;> exact AllResting.of_layers rfl h
  | updateTexImage l a r =>
    obtain ⟨x, -, hr⟩ := of_onLayer hstep
    split at hr
    · cases hr
    · cases hr
      have hrest : AllResting (s.modify l fun x =>
          updated s.points r { x with autoRefresh := a }) :=
        h.modify fun y _ hy => resting_updated r ⟨hy.idle, hy.flagged⟩
      exact ⟨AllResting.of_layers rfl hrest, by simp [silent]⟩
  | onPreComposition l =>
    obtain ⟨-, x, -, hr⟩ := of_onMain hstep
    cases hr
    exact ⟨h.modify fun x _ hx => ⟨hx.idle, hx.flagged⟩, by simp [silent]⟩

theorem resting_of_run {C : Sys D → Input D → Prop}
    (h : RunWhere (Barrier.step eLayerHidden) C start tr s) :
    Sound s tr ∧ AllResting s ∧ ∀ e ∈ tr, ∀ m ∈ e.2.log, m = .emptyQueue := by
  refine h.invariant (P := fun tr s => Sound s tr ∧ AllResting s ∧
    ∀ e ∈ tr, ∀ m ∈ e.2.log, m = .emptyQueue) 
    ⟨sound_start, fun _ _ hx => (by cases hx), fun _ he => (by cases he)⟩ ?_
  rintro tr s i t o ⟨hsound, hrest, hlog⟩ - hstep
  obtain ⟨hrest', hlog'⟩ := hrest.step hsound hstep
  refine ⟨hsound.step hstep, hrest', fun e he => ?_⟩
  rcases List.mem_append.mp he with he | he
  · exact hlog e he
  · rw [List.mem_singleton.mp he]
    exact hlog'

/-! ### The order of the sync points -/

/-- Transactions are deferred until frames of a layer in the order of the frames. -/
def Ordered (s : Sys D) : Input D → Prop
  | .deferTransactionUntil _ b n =>
    ∀ p ∈ ((s.layers b).map (·.localSyncPoints)).getD [], (s.points p).frameNumber ≤ n
  | _ => True

instance (s : Sys D) (i : Input D) : Decidable (Ordered s i) :=
  match i with
  | .deferTransactionUntil _ b n => inferInstanceAs (Decidable
    (∀ p ∈ ((s.layers b).map (·.localSyncPoints)).getD [], (s.points p).frameNumber ≤ n))
  | .create _ | .destroy _ | .set _ _ | .setChildren _ _ | .onFrameAvailable _ _
  | .onFrameReplaced _ _ | .notifyAvailableFrames _ | .doTransaction _ _
  | .onSidebandStreamChanged _ | .latchBuffer _ _ | .updateTexImage _ _ _ | .onPreComposition _ =>
    inferInstanceAs (Decidable True)

/-- The sync points of a layer are in the order of their frames. -/
def Sorted (s : Sys D) : Prop := ∀ l x, s.layers l = some x →
  x.localSyncPoints.Pairwise fun p q => (s.points p).frameNumber ≤ (s.points q).frameNumber

/-- Layers have lost sync points at most. -/
structure Fewer (s t : Sys D) : Prop where
  locals : ∀ l x', t.layers l = some x' → x'.localSyncPoints = [] ∨
    ∃ x, s.layers l = some x ∧ x'.localSyncPoints.Sublist x.localSyncPoints
  frameNumber : ∀ p, (t.points p).frameNumber = (s.points p).frameNumber

section Sorted

omit [DecidableEq D]

variable {u : Sys D}

theorem Sorted.fewer (h : Sorted s) (hfewer : Fewer s t) : Sorted t := by
  intro l x' hx'
  simp only [hfewer.frameNumber]
  rcases hfewer.locals l x' hx' with hnil | ⟨x, hx, hsub⟩
  · rw [hnil]
    exact List.Pairwise.nil
  · exact (h l x hx).sublist hsub

theorem fewer_refl (s : Sys D) : Fewer s s :=
  ⟨fun _ x hx => .inr ⟨x, hx, List.Sublist.refl _⟩, fun _ => rfl⟩

theorem Fewer.trans (h : Fewer s t) (h' : Fewer t u) : Fewer s u where
  locals l x'' hx'' := by
    rcases h'.locals l x'' hx'' with hnil | ⟨x', hx', hsub⟩
    · exact .inl hnil
    · rcases h.locals l x' hx' with hnil | ⟨x, hx, hsub'⟩
      · exact .inl (List.sublist_nil.mp (hnil ▸ hsub))
      · exact .inr ⟨x, hx, hsub.trans hsub'⟩
  frameNumber p := (h'.frameNumber p).trans (h.frameNumber p)

theorem fewer_modify {f : Layer D → Layer D}
    (hf : ∀ x, s.layers l = some x → (f x).localSyncPoints.Sublist x.localSyncPoints) :
    Fewer s (s.modify l f) where
  locals k x' hx' := by
    rcases of_modify hx' with ⟨-, hk⟩ | ⟨rfl, x, hx, rfl⟩
    · exact .inr ⟨x', hk, List.Sublist.refl _⟩
    · exact .inr ⟨x, hx, hf x hx⟩
  frameNumber _ := rfl

theorem frameNumber_change (f : SyncPoint → SyncPoint)
    (hf : ∀ q, (f q).frameNumber = q.frameNumber) (ps : List ℕ) (p : ℕ) :
    (change points ps f p).frameNumber = (points p).frameNumber := by
  unfold Barrier.change
  split
  · exact hf _
  · rfl

theorem Fewer.change (h : Fewer s t) (f : SyncPoint → SyncPoint)
    (hf : ∀ q, (f q).frameNumber = q.frameNumber) (ps : List ℕ) :
    Fewer s { t with points := Barrier.change t.points ps f } where
  locals := h.locals
  frameNumber p := (frameNumber_change f hf ps p).trans (h.frameNumber p)

theorem fewer_clearSyncPoints (depth : ℕ) :
    ∀ (s : Sys D) (l : ℕ), Fewer s (clearSyncPoints depth l s) := by
  induction depth with
  | zero => exact fun s _ => fewer_refl s
  | succ depth ih =>
    intro s l
    have hclear : ∀ t : Sys D, Fewer t (clearLocal t l) := by
      intro t
      unfold clearLocal
      split
      · exact fewer_refl t
      · have hmodify : Fewer t (t.modify l fun x => { x with localSyncPoints := [] }) :=
          fewer_modify fun _ _ => List.nil_sublist _
        exact hmodify.change .clear (fun _ => rfl) _
    refine Fewer.trans ?_ (hclear _)
    generalize ((s.layers l).map (·.children)).getD [] = children
    induction children generalizing s with
    | nil => exact fewer_refl s
    | cons child children ih' => exact (ih s child).trans (ih' _)

theorem fewer_signaled (head : ℕ) (ps : List ℕ) (found applied : Bool) :
    Fewer s { s with points := (signaled head ps s.points found applied).1 } := by
  rcases signaled_points s.points head ps found applied with heq | ⟨p, -, -, heq⟩
  · rw [heq]
    exact fewer_refl s
  · rw [heq]
    exact (fewer_refl s).change .setFrameAvailable (fun _ => rfl) [p]

theorem localSyncPoints_fail (q : Bool) :
    (updated.fail x q).localSyncPoints.Sublist x.localSyncPoints := by
  cases q <;> exact List.Sublist.refl _

theorem localSyncPoints_updated (r : Updated) :
    (updated points r x).localSyncPoints.Sublist x.localSyncPoints := by
  cases r with
  | presentLater => exact List.Sublist.refl _
  | rejected q => cases q <;> exact List.Sublist.refl _
  | failed q => exact localSyncPoints_fail q
  | latched q n b =>
    simp only [updated]
    split
    · exact localSyncPoints_fail q
    · cases q <;> cases b
      · exact List.Sublist.refl _
      · exact List.filter_sublist
      · exact List.Sublist.refl _
      · exact List.filter_sublist

/-- **A sync point is added** behind those for the frames before it. -/
theorem Sorted.pushWaiting (h : Sorted s) (hsound : Sound s tr) {b n : ℕ}
    (hle : ∀ y, s.layers b = some y → ∀ p ∈ y.localSyncPoints, (s.points p).frameNumber ≤ n) :
    Sorted (pushWaiting s l b n) := by
  have hold : ∀ {k z}, s.layers k = some z → ∀ p ∈ z.localSyncPoints,
      (Barrier.pushWaiting s l b n).points p = s.points p := fun hz p hp =>
    if_neg ((hsound.layer _ _ hz).locals p hp).2.ne
  have hsame : ∀ {k z}, s.layers k = some z → z.localSyncPoints.Pairwise fun p q =>
      ((Barrier.pushWaiting s l b n).points p).frameNumber ≤
        ((Barrier.pushWaiting s l b n).points q).frameNumber := by
    intro k z hz
    refine (h k z hz).imp_of_mem fun hp hq hpq => ?_
    rw [hold hz _ hp, hold hz _ hq]
    exact hpq
  -- the layer that waits keeps its own sync points
  have hbarrier : ∀ {k z}, (s.modify b fun y => { y with
      localSyncPoints := y.localSyncPoints ++ [s.nextPoint] }).layers k = some z →
      z.localSyncPoints.Pairwise fun p q =>
        ((Barrier.pushWaiting s l b n).points p).frameNumber ≤
          ((Barrier.pushWaiting s l b n).points q).frameNumber := by
    intro k z hz
    rcases of_modify hz with ⟨-, hz₁⟩ | ⟨rfl, y, hy, rfl⟩
    · exact hsame hz₁
    · refine List.pairwise_append.mpr ⟨hsame hy, List.pairwise_singleton _ _, fun p hp q hq => ?_⟩
      rw [List.mem_singleton.mp hq, hold hy p hp]
      have hnew : (Barrier.pushWaiting s l k n).points s.nextPoint =
          ⟨n, false, false, l, k, false⟩ := if_pos rfl
      rw [hnew]
      exact hle y hy p hp
  intro k z hz
  rcases of_modify hz with ⟨-, hz₁⟩ | ⟨rfl, z₁, hz₁, rfl⟩
  · exact hbarrier hz₁
  · have hpairwise := hbarrier hz₁
    exact hpairwise

theorem Sorted.deferTransactionUntil (h : Sorted s) (hsound : Sound s tr) {b : Option ℕ} {n : ℕ}
    (hle : ∀ k ∈ b, ∀ y, s.layers k = some y →
      ∀ p ∈ y.localSyncPoints, (s.points p).frameNumber ≤ n)
    (hx : s.layers l = some x) : Sorted (deferTransactionUntil s l b n).1 := by
  let s₁ := s.modify l fun x => { x with
    current := { x.current with barrierLayer := b, frameNumber := n, modified := true } }
  have hs₁ : Sorted s₁ := h.fewer (fewer_modify fun _ _ => List.Sublist.refl _)
  have hsound₁ : Sound s₁ tr := hsound.modify fun _ _ => plain_of_eq rfl rfl rfl rfl rfl rfl rfl
  unfold Barrier.deferTransactionUntil
  dsimp only
  split
  · exact hs₁
  · rename_i y hy
    refine Sorted.fewer ?_ (fewer_modify fun _ _ => List.Sublist.refl _)
    obtain ⟨-, z, -, rfl⟩ : _ ∧ ∃ z, s.layers l = some z ∧ y = { z with
        current := { z.current with barrierLayer := b, frameNumber := n, modified := true } } :=
      (of_modify hy).resolve_left fun hne => hne.1 rfl
    unfold pushPendingState
    split
    · exact hs₁
    · split
      · exact hs₁.fewer (fewer_modify fun _ _ => List.Sublist.refl _)
      · rename_i k hk
        split
        · exact hs₁.fewer (fewer_modify fun _ _ => List.Sublist.refl _)
        · split
          · exact hs₁.fewer (fewer_modify fun _ _ => List.Sublist.refl _)
          · refine hs₁.pushWaiting hsound₁ fun y' hy' => ?_
            rcases of_modify hy' with ⟨-, hz₁⟩ | ⟨rfl, z₁, hz₁, rfl⟩
            · exact hle k hk y' hz₁
            · exact hle k hk z₁ hz₁

end Sorted

theorem Fewer.doTransaction (h : AllResting s) (hsound : Sound s tr) (m : Mode)
    (hx : s.layers l = some x) : Fewer s (doTransaction eLayerHidden m s l x).1 := by
  let x₀ := { x with transactionNeeded := false }
  let s₁ := s.modify l fun x => { x with transactionNeeded := false }
  have hs₁ : Sound s₁ tr := hsound.modify fun _ _ => plain_of_eq rfl rfl rfl rfl rfl rfl rfl
  have hx₁ : s₁.layers l = some x₀ := modify_eq_some hx
  have hsound' := hs₁.pushPendingState hx₁ rfl
  have hfewer₁ : Fewer s s₁ := fewer_modify fun _ _ => List.Sublist.refl _
  have hpush : Fewer s (pushPendingState s₁ l x₀).1 := by
    refine hfewer₁.trans ?_
    rw [pushPendingState_idle (show x₀.current.barrierLayer = none from (h l x hx).idle)]
    dsimp only
    split
    · exact fewer_modify fun _ _ => List.Sublist.refl _
    · exact fewer_refl s₁
  unfold Barrier.doTransaction
  dsimp only
  split
  · exact hpush
  · rename_i y hy
    obtain ⟨-, -, ps, hpoints, -⟩ := (hsound'.layer l y hy).apply y.current
    have happly : Fewer s ((pushPendingState s₁ l x₀).1.apply l
        (applyPendingStates y.pendingStates y.remoteSyncPoints
          (pushPendingState s₁ l x₀).1.points y.current)) := by
      have hmodify := hpush.trans (fewer_modify (s := (pushPendingState s₁ l x₀).1) (l := l)
        (f := (·.apply (applyPendingStates y.pendingStates y.remoteSyncPoints
          (pushPendingState s₁ l x₀).1.points y.current))) fun _ _ => List.Sublist.refl _)
      refine ⟨hmodify.locals, fun p => ?_⟩
      dsimp only [Sys.apply]
      rw [hpoints]
      exact (frameNumber_change .setTransactionApplied (fun _ => rfl) ps p).trans
        (hpush.frameNumber p)
    split
    · exact happly
    · refine Fewer.trans ?_ (fewer_modify fun _ _ => List.Sublist.refl _)
      split
      · exact happly.trans (fewer_clearSyncPoints _ _ l)
      · exact happly

/-- **One step** keeps the sync points in order. -/
theorem Sorted.step {i : Input D} {o : Output} (h : Sorted s) (hsound : Sound s tr)
    (hrest : AllResting s) (hord : Ordered s i) (hstep : step eLayerHidden s i = some (t, o)) :
    Sorted t := by
  cases i with
  | create st =>
    cases hstep
    intro k y hy
    dsimp only at hy
    split at hy
    · cases hy
      exact List.Pairwise.nil
    · exact h k y hy
  | destroy l =>
    obtain ⟨x, -, hr⟩ := of_onLayer hstep
    split at hr
    · cases hr
    · cases hr
      refine h.fewer ⟨fun k y hy => ?_, fun p => ?_⟩
      · dsimp only [Barrier.destroy] at hy
        split at hy
        · cases hy
        · exact .inr ⟨y, hy, List.Sublist.refl _⟩
      · exact (frameNumber_change .setFrameAvailable (fun _ => rfl) _ p).trans
          (frameNumber_change .setTransactionApplied (fun _ => rfl) _ p)
  | set l st =>
    obtain ⟨x, -, hr⟩ := of_onLayer hstep
    cases hr
    exact h.fewer (fewer_modify fun _ _ => List.Sublist.refl _)
  | setChildren l children =>
    obtain ⟨x, -, hr⟩ := of_onLayer hstep
    cases hr
    exact h.fewer (fewer_modify fun _ _ => List.Sublist.refl _)
  | deferTransactionUntil l b n =>
    obtain ⟨x, hx, hr⟩ := of_onLayer hstep
    cases hr
    refine h.deferTransactionUntil hsound (fun k hk y hy => ?_) hx
    obtain ⟨z, hz, rfl⟩ := Option.map_eq_some_iff.mp hk
    have hle := hord
    simp only [Ordered, hz, Option.map_some, Option.getD_some] at hle
    obtain rfl := Option.some.inj (hz.symm.trans hy)
    exact hle
  | onFrameAvailable l n =>
    obtain ⟨x, hx, hr⟩ := of_onLayer hstep
    obtain ⟨x', hx', hr⟩ := Option.map_eq_some_iff.mp hr
    cases hr
    obtain rfl := of_onFrameAvailable hx'
    refine h.fewer (fewer_modify fun y hy => ?_)
    rw [Option.some.inj (hx.symm.trans hy)]
  | onFrameReplaced l n =>
    obtain ⟨x, hx, hr⟩ := of_onLayer hstep
    obtain ⟨r, hr', hr⟩ := Option.map_eq_some_iff.mp hr
    cases hr
    refine h.fewer (fewer_modify fun y hy => ?_)
    obtain rfl := Option.some.inj (hx.symm.trans hy)
    simp only [Layer.onFrameReplaced] at hr'
    split at hr'
    · cases hr'
    · split at hr' <;> cases hr' <;> exact List.Sublist.refl _
  | notifyAvailableFrames l =>
    obtain ⟨-, x, -, hr⟩ := of_onMain hstep
    cases hr
    exact h.fewer ((fewer_refl s).change .setFrameAvailable (fun _ => rfl) _)
  | doTransaction l m =>
    simp only [Barrier.step] at hstep
    split at hstep
    · obtain ⟨x, hx, hr⟩ := of_onLayer hstep
      split at hr
      · cases hr
      · cases hr
        exact h.fewer (Fewer.doTransaction hrest hsound m hx)
    · cases hstep
  | onSidebandStreamChanged l =>
    obtain ⟨x, -, hr⟩ := of_onLayer hstep
    cases hr
    exact h.fewer (fewer_modify fun _ _ => List.Sublist.refl _)
  | latchBuffer l sidebandStream =>
    obtain ⟨-, x, -, hr⟩ := of_onMain hstep
    cases hr
    refine h.fewer ?_
    unfold Barrier.latchBuffer
    split
    · exact fewer_modify fun _ _ => List.Sublist.refl _
    · split
      · exact fewer_refl s
      · have hfewer : Fewer s { s with points :=
            (signaled x.getHeadFrameNumber x.localSyncPoints s.points false true).1 } :=
          fewer_signaled _ _ _ _
        dsimp only
        split
        · exact ⟨hfewer.locals, hfewer.frameNumber⟩
        · exact hfewer
  | updateTexImage l a r =>
    obtain ⟨x, -, hr⟩ := of_onLayer hstep
    split at hr
    · cases hr
    · cases hr
      have hfewer : Fewer s (s.modify l fun x =>
          updated s.points r { x with autoRefresh := a }) :=
        fewer_modify fun y _ => localSyncPoints_updated r
      exact h.fewer ⟨hfewer.locals, hfewer.frameNumber⟩
  | onPreComposition l =>
    obtain ⟨-, x, -, hr⟩ := of_onMain hstep
    cases hr
    exact h.fewer (fewer_modify fun _ _ => List.Sublist.refl _)

theorem sorted_of_run (h : RunWhere (Barrier.step eLayerHidden) Ordered start tr s) :
    Sound s tr ∧ AllResting s ∧ Sorted s := by
  refine h.invariant (P := fun tr s => Sound s tr ∧ AllResting s ∧ Sorted s)
    ⟨sound_start, fun _ _ hx => (by cases hx), fun _ _ hx => (by cases hx)⟩ ?_
  rintro tr s i t o ⟨hsound, hrest, hsorted⟩ hord hstep
  exact ⟨hsound.step hstep, (hrest.step hsound hstep).1, hsorted.step hsound hrest hord hstep⟩

/-! ### What every run does -/

/-- **The states and the sync points of a layer never fall out of step**: in every run, the three
errors about sync points are never logged, and every state that has been pushed on a layer is
committed with the sync point it was pushed with, or waits at it. -/
theorem log_of_run (h : Run (Barrier.step eLayerHidden) start tr s) :
    (∀ e ∈ tr, ∀ m ∈ e.2.log, m = .emptyQueue) ∧
      ∀ l x, s.layers l = some x → Lockstep s.points s.nextPoint l x := by
  obtain ⟨hsound, -, hlog⟩ := resting_of_run h
  exact ⟨hlog, fun l x hx => (hsound.layer l x hx).lockstep⟩

/-- A state of a small layer. -/
def plainState (flags : BitVec 32) : State ℕ where
  requested := ⟨1, 1, 0, 0⟩
  active := ⟨1, 1, 0, 0⟩
  content := 0
  sequence := 0
  flags := flags
  mask := 1
  modified := false
  barrierLayer := none
  frameNumber := 0

def plainMode : Mode := ⟨false, false⟩

/-- A transaction on the first of two layers is deferred until the first frame of the other. -/
def deferInputs : List (Input ℕ) :=
  [.create (plainState 0), .create (plainState 0), .set 0 (plainState 0),
    .deferTransactionUntil 0 1 1]

/-- The frame comes in, -/
def heldInputs : List (Input ℕ) :=
  deferInputs ++ [.doTransaction 0 plainMode, .onFrameAvailable 1 1]

/-- and the transaction is committed; -/
def committedInputs : List (Input ℕ) :=
  heldInputs ++ [.latchBuffer 1 false, .doTransaction 0 plainMode]

/-- or it comes in when the other layer has been hidden. -/
def hiddenInputs : List (Input ℕ) :=
  deferInputs ++ [.set 1 (plainState 1), .doTransaction 1 plainMode, .onFrameAvailable 1 1]

theorem log_of_run_committed : ∃ (tr : List (Input ℕ × Output)) (s : Sys ℕ),
    Run (Barrier.step 1) start tr s ∧ tr.length = 8 ∧
      (∀ e ∈ tr, ∀ m ∈ e.2.log, m = .emptyQueue) ∧
        ∀ l x, s.layers l = some x → Lockstep s.points s.nextPoint l x := by
  have hexec : exec (Barrier.step 1) Ordered start committedInputs = some _ := rfl
  have hrun := (run_of_exec hexec).run
  exact ⟨_, _, hrun, rfl, log_of_run hrun⟩

/-- **Not too early, and in order.** In every run, what a layer has pushed is what it has committed
and what is pending, in this order; and a state that was deferred until a frame of another layer
has been committed only if that frame or a later one has come in there, or the other layer has let
go of its sync point, or is gone. -/
theorem committed_of_run (h : Run (Barrier.step eLayerHidden) start tr s)
    (hx : s.layers l = some x) :
    x.pushed.map Prod.fst = x.committed.map Prod.fst ++ x.pendingStates ∧
      ∀ e ∈ x.committed, ∀ b, e.1.barrierLayer = some b → ∃ p ∈ e.2,
        (s.points p).letGo = true ∨ s.layers b = none ∨ ∃ n, e.1.frameNumber ≤ n ∧ Come tr b n := by
  have hsound := sound_of_run h
  have hlayer := hsound.layer l x hx
  constructor
  · obtain ⟨ties, hpushed, hpending, -, -⟩ := hlayer.lockstep
    rw [hpushed, hpending, List.map_append]
  rintro ⟨st, o⟩ he b hb
  have htied := hlayer.lockstep.committed he
  cases o with
  | none =>
    have hnone : st.barrierLayer = none := htied
    rw [hnone] at hb
    cases hb
  | some p =>
    obtain ⟨hbarrier, hnumber, -, hlt⟩ := htied
    obtain rfl := Option.some.inj (hbarrier.symm.trans hb)
    exact ⟨p, rfl, hnumber ▸ (hsound.point p hlt).come (hlayer.available _ he p rfl)⟩

theorem committed_of_run_told : ∃ (tr : List (Input ℕ × Output)) (s : Sys ℕ) (x : Layer ℕ),
    Run (Barrier.step 1) start tr s ∧ s.layers 0 = some x ∧ x.committed.length = 1 ∧
      ∀ e ∈ x.committed, ∀ b, e.1.barrierLayer = some b → ∃ p ∈ e.2,
        (s.points p).letGo = true ∨ s.layers b = none ∨
          ∃ n, e.1.frameNumber ≤ n ∧ Come tr b n := by
  have hexec : exec (Barrier.step 1) Ordered start committedInputs = some _ := rfl
  have hrun := (run_of_exec hexec).run
  exact ⟨_, _, _, hrun, rfl, rfl, (committed_of_run hrun (l := 0) rfl).2⟩

omit [DecidableEq D] in
/-- The sync point of a state that waits. -/
theorem Lockstep.pending {next : ℕ} (h : Lockstep points next l x) {st : State D}
    (hst : st ∈ x.pendingStates) {b : ℕ} (hb : st.barrierLayer = some b) :
    ∃ p ∈ x.remoteSyncPoints, p < next ∧ (points p).barrier = b ∧
      (points p).frameNumber = st.frameNumber := by
  obtain ⟨ties, hpushed, hpending, hremote, hties⟩ := h
  rw [hpending] at hst
  rw [hremote]
  obtain ⟨⟨st', o⟩, he, rfl⟩ := List.mem_map.mp hst
  have htied := hties _ (by rw [hpushed]; exact List.mem_append_right _ he)
  cases o with
  | none =>
    have hnone : st'.barrierLayer = none := htied
    dsimp only at hb
    rw [hnone] at hb
    cases hb
  | some p =>
    obtain ⟨hbarrier, hnumber, -, hlt⟩ := htied
    exact ⟨p, List.mem_filterMap.mpr ⟨_, he, rfl⟩, hlt,
      Option.some.inj (hbarrier.symm.trans hb), hnumber⟩

section Signaled

variable {head : ℕ} {ps : List ℕ}

theorem signaled_found (applied : Bool) : (signaled head ps points true applied).2.1 = true := by
  induction ps generalizing applied with
  | nil => rfl
  | cons p ps ih =>
    unfold signaled
    split
    · rfl
    · split
      · rfl
      · exact ih _

/-- All transactions that wait for the frame at the head have been applied. -/
theorem applied_of_signaled
    (hsorted : ps.Pairwise fun p q => (points p).frameNumber ≤ (points q).frameNumber)
    {found applied : Bool} (h : (signaled head ps points found applied).2.2 = true) :
    applied = true ∧ ∀ p ∈ ps, (points p).frameNumber ≤ head →
      (points p).transactionIsApplied = true := by
  induction ps generalizing found applied with
  | nil => exact ⟨h, by simp⟩
  | cons p ps ih =>
    obtain ⟨hfirst, hrest⟩ := List.pairwise_cons.mp hsorted
    unfold signaled at h
    split at h
    · rename_i hgt
      refine ⟨h, fun q hq hle => ?_⟩
      -- the others are for later frames still
      exfalso
      rcases List.mem_cons.mp hq with rfl | hq
      · omega
      · have := hfirst q hq
        omega
    · split at h
      · cases h
      · obtain ⟨happlied, hall⟩ := ih hrest h
        rw [Bool.and_eq_true] at happlied
        refine ⟨happlied.1, fun q hq hle => ?_⟩
        rcases List.mem_cons.mp hq with rfl | hq
        · exact happlied.2
        · exact hall q hq hle

/-- No transaction waits for the frame at the head. -/
theorem lt_of_not_found
    (hsorted : ps.Pairwise fun p q => (points p).frameNumber ≤ (points q).frameNumber)
    {applied : Bool} (h : (signaled head ps points false applied).2.1 = false) {p : ℕ}
    (hp : p ∈ ps) : head < (points p).frameNumber := by
  cases ps with
  | nil => cases hp
  | cons q ps =>
    obtain ⟨hfirst, -⟩ := List.pairwise_cons.mp hsorted
    unfold signaled at h
    split at h
    · rcases List.mem_cons.mp hp with rfl | hp
      · assumption
      · have := hfirst p hp
        omega
    · split at h
      · cases h
      · rw [signaled_found] at h
        cases h

end Signaled

/-- `latchBuffer` goes on to `updateTexImage`, or does not. -/
theorem head_latchBuffer (hx : s.layers l = some x) {sidebandStream : Bool} {o : Output}
    (hstep : step eLayerHidden s (.latchBuffer l sidebandStream) = some (t, o)) :
    (x.sidebandStreamChanged = true ∨ (x.queuedFrames ≤ 0 ∧ ¬ x.autoRefresh) ∨
        x.refreshPending = true) ∧ o.head = none ∨
      ∃ r, r = signaled x.getHeadFrameNumber x.localSyncPoints s.points false true ∧
        t.points = r.1 ∧ o.head = if !r.2.1 || r.2.2 then some x.getHeadFrameNumber else none := by
  obtain ⟨-, x', hx', hr⟩ := of_onMain hstep
  obtain rfl := Option.some.inj (hx.symm.trans hx')
  cases hr
  unfold latchBuffer
  split
  · exact .inl ⟨.inl ‹_›, rfl⟩
  · split
    · exact .inl ⟨.inr ‹_›, rfl⟩
    · refine .inr ⟨_, rfl, ?_⟩
      dsimp only
      split <;> exact ⟨rfl, rfl⟩

/-- **Not too late.** In every run in which transactions are deferred in the order of the frames:
when a layer goes on to latch the frame at its head, no layer still has a state that it deferred
until this frame or one before it, but for those whose sync points the layer has let go. -/
theorem committed_of_latched {b n : ℕ} {sidebandStream : Bool} {o : Output} {st : State D}
    (h : RunWhere (Barrier.step eLayerHidden) Ordered start tr s)
    (hstep : step eLayerHidden s (.latchBuffer b sidebandStream) = some (t, o))
    (ho : o.head = some n) (hx : s.layers l = some x) (hst : st ∈ x.pendingStates)
    (hb : st.barrierLayer = some b) (hle : st.frameNumber ≤ n) :
    ∃ p ∈ x.remoteSyncPoints, (s.points p).barrier = b ∧
      (s.points p).frameNumber = st.frameNumber ∧ (s.points p).letGo = true := by
  obtain ⟨hsound, -, hsorted⟩ := sorted_of_run h
  have hlayer := hsound.layer l x hx
  obtain ⟨p, hp, hlt, hbarrier, hnumber⟩ := hlayer.lockstep.pending hst hb
  refine ⟨p, hp, hbarrier, hnumber, ?_⟩
  by_contra hheld
  rw [Bool.not_eq_true] at hheld
  have hwaits := hlayer.waits p hp
  obtain ⟨-, y, hy, -⟩ := of_onMain hstep
  -- otherwise the sync point is still among those of the barrier, and has been seen to
  have hmem := (hsound.point p hlt).held hwaits hheld y (hbarrier ▸ hy)
  rcases head_latchBuffer hy hstep with ⟨-, hnone⟩ | ⟨r, rfl, -, hhead⟩
  · rw [ho] at hnone
    cases hnone
  · rw [ho] at hhead
    split at hhead
    · rename_i hok
      obtain rfl := Option.some.inj hhead
      rw [Bool.or_eq_true, Bool.not_eq_true'] at hok
      rcases hok with hfound | happlied
      · have hgt := lt_of_not_found (hsorted b y hy) hfound hmem
        omega
      · have hdone := (applied_of_signaled (hsorted b y hy) happlied).2 p hmem (by omega)
        rw [hwaits] at hdone
        cases hdone
    · cases hhead

/-- The layer that has been hidden latches its frame, with the transaction still pending. -/
theorem committed_of_latched_hidden : ∃ (tr : List (Input ℕ × Output)) (s : Sys ℕ) (x : Layer ℕ),
    RunWhere (Barrier.step 1) Ordered start tr s ∧ s.layers 0 = some x ∧
      ∃ p ∈ x.remoteSyncPoints, (s.points p).barrier = 1 ∧ (s.points p).frameNumber = 1 ∧
        (s.points p).letGo = true := by
  have hexec : exec (Barrier.step 1) Ordered start hiddenInputs = some _ := rfl
  have hrun := run_of_exec hexec
  have hlet := committed_of_latched hrun (n := 1) (l := 0)
    (rfl : step 1 _ (.latchBuffer 1 false) = some (_, _)) rfl rfl List.mem_cons_self rfl
    (le_refl 1)
  exact ⟨_, _, _, hrun, rfl, hlet⟩

end Barrier

end Flinger

end A1000

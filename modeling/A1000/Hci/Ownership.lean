import A1000.Hci.Live
import A1000.Lib.Ledger

/-!
# Who frees what

While the message loop is alive, every event packet is freed by the layer once or handed over once
(to a complete callback, a future or the upper layer), every command buffer is freed or handed to a
status callback once, after its answer and not before, and every wait entry is freed once. Nothing
is touched after that.

What a complete callback, a status callback and the owner of a future are handed is theirs to free,
so handing over is a release. The phase of each resource in the ledger of the whole history can be
read off the present state (`Layer.phaseOf`): what live commands hold is held, what else has been
handed in or allocated is gone.

## Main definitions

* `Hci.ledger` — the acts of the layer as dealings with buffers and wait entries
* `Hci.Layer.phaseOf` — the phase a resource must be in

## Main results

* `Hci.run_deliver` — the tail `intercepted` releases packet, command and entry, each once, in all
  its cases
* `Hci.Effect.ledger` — one step takes every resource from its phase to its new phase
* `Hci.ownership_linear` — ownership is linear in every run
-/

namespace A1000

namespace Hci

open StepSystem Ledger

/-! ### The ledger -/

/-- A buffer or a wait entry. -/
inductive Resource
  | buffer (n : ℕ)
  | entry (n : ℕ)
  deriving DecidableEq, Repr

/-- The dealings of an act. -/
def Act.events : Act → List (Event Resource)
  | .handedIn b => [.acquire (.buffer b)]
  | .osiCalloc w => [.acquire (.entry w.addr)]
  | .touch w | .postTask w | .listAppend w | .listRemove w => [.use (.entry w.addr)]
  | .fragmentAndDispatch b => [.use (.buffer b)]
  | .completeCallback _ p _ => [.release (.buffer p)]
  | .statusCallback _ _ c _ => [.release (.buffer c)]
  | .futureReady _ p => [.release (.buffer p)]
  | .sendDataUpwards p => [.release (.buffer p)]
  | .free b => [.release (.buffer b)]
  | .osiFree w => [.release (.entry w.addr)]
  | .forget _ => []

/-- The dealings of the layer, in program order. -/
def ledger (acts : List Act) : List (Event Resource) := acts.flatMap Act.events

@[simp] theorem ledger_nil : ledger [] = [] := rfl

@[simp] theorem ledger_cons (a : Act) (as : List Act) : ledger (a :: as) = a.events ++ ledger as :=
  rfl

@[simp] theorem ledger_append (as bs : List Act) : ledger (as ++ bs) = ledger as ++ ledger bs :=
  List.flatMap_append

/-- The phase a resource must be in: held by a live command, gone, or not yet seen. -/
def Layer.phaseOf (s : Layer) : Resource → Phase
  | .buffer n =>
    if n ∈ s.live.map WaitingCommand.command then .held
    else if n ∈ s.buffers then .gone else .untouched
  | .entry n =>
    if n ∈ s.live.map WaitingCommand.addr then .held
    else if n < s.entries then .gone else .untouched

theorem phaseOf_command {s : Layer} {w : WaitingCommand} (hw : w ∈ s.live) :
    s.phaseOf (.buffer w.command) = .held := if_pos (List.mem_map_of_mem hw)

theorem phaseOf_entry {s : Layer} {w : WaitingCommand} (hw : w ∈ s.live) :
    s.phaseOf (.entry w.addr) = .held := if_pos (List.mem_map_of_mem hw)

/-- Looking at live entries and posting them leaves every phase as it is. -/
theorem run_uses {s : Layer} {ws : List WaitingCommand} (h : ws ⊆ s.live) (r : Resource) :
    run r (some (s.phaseOf r)) (ledger (ws.map .touch)) = some (s.phaseOf r) ∧
      run r (some (s.phaseOf r)) (ledger (ws.map .postTask)) = some (s.phaseOf r) := by
  have huse : ∀ f : WaitingCommand → Act, (∀ w, (f w).events = [.use (.entry w.addr)]) →
      run r (some (s.phaseOf r)) (ledger (ws.map f)) = some (s.phaseOf r) := by
    intro f hf
    refine run_of_forall_use fun e he => ?_
    obtain ⟨a, ha, hea⟩ := List.mem_flatMap.mp he
    obtain ⟨w, hw, rfl⟩ := List.mem_map.mp ha
    rw [hf w, List.mem_singleton] at hea
    exact ⟨_, hea, fun hr => by rw [← hr, phaseOf_entry (h hw)]⟩
  exact ⟨huse .touch fun _ => rfl, huse .postTask fun _ => rfl⟩

/-! ### The tail `intercepted` -/

/-- **Who frees what.** Whatever the kind of the event and whichever of the callbacks and the
future the entry has, delivering the event releases the packet, the command and the entry, each
once. -/
theorem run_deliver {packet : BtHdr} {w : WaitingCommand} (hne : packet.addr ≠ w.command) :
    run (.buffer packet.addr) (some .held) (ledger (deliver packet w)) = some .gone ∧
      run (.buffer w.command) (some .held) (ledger (deliver packet w)) = some .gone ∧
      run (.entry w.addr) (some .held) (ledger (deliver packet w)) = some .gone ∧
      ∀ r, r ≠ .buffer packet.addr → r ≠ .buffer w.command → r ≠ .entry w.addr → ∀ p,
        run r p (ledger (deliver packet w)) = p := by
  have hother : ∀ r, r ≠ .buffer packet.addr → r ≠ .buffer w.command → r ≠ .entry w.addr → ∀ p,
      run r p (ledger (deliver packet w)) = p := by
    intro r hp hc he p
    refine run_of_forall_ne ?_ p
    rw [deliver, giveComplete, giveStatus, intercepted, intercepted]
    cases w.completeCallback <;> cases w.statusCallback <;> cases w.completeFuture <;>
      by_cases hcode : packet.eventCode = hciCommandCompleteEvt <;>
      simp [hcode, Act.events, Event.resource, hp.symm, hc.symm, he.symm]
  refine ⟨?_, ?_, ?_, hother⟩
  all_goals
    rw [deliver, giveComplete, giveStatus, intercepted, intercepted]
    cases w.completeCallback <;> cases w.statusCallback <;> cases w.completeFuture <;>
      by_cases hcode : packet.eventCode = hciCommandCompleteEvt <;>
      simp [hcode, Act.events, advance, Event.resource, Phase.next, hne, hne.symm]

/-! ### How the phases change -/

section PhaseOf

variable {s s' : Layer} {w : WaitingCommand} {b : ℕ}

theorem phaseOf_perm (hperm : s'.live.Perm s.live) (hb : s'.buffers = s.buffers)
    (he : s'.entries = s.entries) (r : Resource) : s'.phaseOf r = s.phaseOf r := by
  cases r <;> simp only [Layer.phaseOf, (hperm.map _).mem_iff, hb, he]

/-- One more live command: its buffer and its entry are held. -/
theorem phaseOf_keep (hperm : s'.live.Perm (s.live ++ [w]))
    (hb : s'.buffers = w.command :: s.buffers)
    (he : s'.entries = s.entries + 1) (ha : w.addr = s.entries) (r : Resource) :
    s'.phaseOf r =
      if r = .buffer w.command ∨ r = .entry w.addr then .held else s.phaseOf r := by
  cases r with
  | buffer n =>
    simp only [Layer.phaseOf, (hperm.map _).mem_iff, hb, List.map_append, List.map_singleton,
      List.mem_append, List.mem_cons, Resource.buffer.injEq, reduceCtorEq, or_false]
    by_cases hn : n = w.command <;> simp [hn]
  | entry n =>
    simp only [Layer.phaseOf, (hperm.map _).mem_iff, he, List.map_append, List.map_singleton,
      List.mem_append, List.mem_singleton, Resource.entry.injEq, reduceCtorEq, false_or]
    by_cases hn : n = w.addr
    · simp [hn]
    · have hlt : n < s.entries + 1 ↔ n < s.entries := by omega
      simp [hn, hlt]

/-- A received packet that the layer does not keep is gone. -/
theorem phaseOf_receive (hs : Sound s) (hperm : s'.live.Perm s.live)
    (hb : s'.buffers = b :: s.buffers) (he : s'.entries = s.entries) (fresh : b ∉ s.buffers)
    (r : Resource) : s'.phaseOf r = if r = .buffer b then .gone else s.phaseOf r := by
  cases r with
  | buffer n =>
    simp only [Layer.phaseOf, (hperm.map _).mem_iff, hb, List.mem_cons, Resource.buffer.injEq]
    by_cases hn : n = b
    · have hdead : n ∉ s.live.map WaitingCommand.command := by
        intro hmem
        obtain ⟨v, hv, rfl⟩ := List.mem_map.mp hmem
        exact fresh (hn ▸ hs.distinct.command_mem v hv)
      rw [if_pos hn, if_neg hdead, if_pos (.inl hn)]
    · simp [hn]
  | entry n => simp only [Layer.phaseOf, (hperm.map _).mem_iff, he, reduceCtorEq, if_false]

/-- The answered command and the packet that answered it are gone. -/
theorem phaseOf_answered (hs : Sound s) (hperm : (s'.live ++ [w]).Perm s.live)
    (hb : s'.buffers = b :: s.buffers) (he : s'.entries = s.entries) (fresh : b ∉ s.buffers)
    (r : Resource) :
    s'.phaseOf r =
      if r = .buffer b ∨ r = .buffer w.command ∨ r = .entry w.addr then .gone
      else s.phaseOf r := by
  have hdist := hs.distinct.perm hperm
  have hw : w ∈ s.live := hperm.mem_iff.mp (by simp)
  have hmem : ∀ (f : WaitingCommand → ℕ) (n : ℕ),
      n ∈ s.live.map f ↔ n ∈ s'.live.map f ∨ n = f w := by
    intro f n
    rw [← (hperm.map f).mem_iff]
    simp
  have hgone : ∀ f : WaitingCommand → ℕ, ((s'.live ++ [w]).map f).Nodup → f w ∉ s'.live.map f := by
    intro f hnd hmem
    rw [List.map_append, List.nodup_append] at hnd
    exact hnd.2.2 _ hmem _ (by simp) rfl
  cases r with
  | buffer n =>
    simp only [Layer.phaseOf, hmem, hb, List.mem_cons, Resource.buffer.injEq, reduceCtorEq,
      or_false]
    by_cases hn : n = w.command
    · have hin : w.command ∈ s.buffers := hs.distinct.command_mem w hw
      simp only [hn, if_neg (hgone _ hdist.commands_nodup), hin, or_true, if_true]
    · by_cases hnb : n = b
      · have hdead : n ∉ s'.live.map WaitingCommand.command := by
          intro h
          obtain ⟨v, hv, rfl⟩ := List.mem_map.mp h
          exact fresh (hnb ▸ hdist.command_mem v (List.mem_append_left _ hv))
        simp only [hnb, if_neg (hnb ▸ hdead), true_or, if_true]
      · simp [hn, hnb]
  | entry n =>
    simp only [Layer.phaseOf, hmem, he, Resource.entry.injEq, reduceCtorEq, false_or]
    by_cases hn : n = w.addr
    · have hlt : w.addr < s.entries := hs.distinct.addr_lt w hw
      simp only [hn, if_neg (hgone _ hdist.addrs_nodup), hlt, if_true]
    · simp [hn]

/-- A refused submission leaves its buffer and its entry gone. -/
theorem phaseOf_accept (hs : Sound s) (ha : w.addr = s.entries) (fresh : w.command ∉ s.buffers)
    (r : Resource) :
    (s.accept w).phaseOf r =
      if r = .buffer w.command ∨ r = .entry w.addr then .gone else s.phaseOf r := by
  have hlive : (s.accept w).live = s.live := rfl
  have hbuffers : (s.accept w).buffers = w.command :: s.buffers := rfl
  have hentries : (s.accept w).entries = s.entries + 1 := rfl
  cases r with
  | buffer n =>
    simp only [Layer.phaseOf, hlive, hbuffers, List.mem_cons, Resource.buffer.injEq, reduceCtorEq,
      or_false]
    by_cases hn : n = w.command
    · have hdead : w.command ∉ s.live.map WaitingCommand.command := by
        intro h
        obtain ⟨v, hv, hvc⟩ := List.mem_map.mp h
        exact fresh (hvc ▸ hs.distinct.command_mem v hv)
      simp only [hn, if_neg hdead, true_or, if_true]
    · simp [hn]
  | entry n =>
    simp only [Layer.phaseOf, hlive, hentries, Resource.entry.injEq, reduceCtorEq, false_or]
    by_cases hn : n = w.addr
    · have hdead : w.addr ∉ s.live.map WaitingCommand.addr := by
        intro h
        obtain ⟨v, hv, hva⟩ := List.mem_map.mp h
        have := hs.distinct.addr_lt v hv
        omega
      have hlt : w.addr < s.entries + 1 := by omega
      simp only [hn, if_neg hdead, hlt, if_true]
    · have hlt : n < s.entries + 1 ↔ n < s.entries := by omega
      simp [hn, hlt]

end PhaseOf

/-! ### One step -/

theorem phaseOf_fresh {s : Layer} (hs : Sound s) {b : ℕ} (fresh : b ∉ s.buffers) :
    s.phaseOf (.buffer b) = .untouched := by
  have hdead : b ∉ s.live.map WaitingCommand.command := by
    intro h
    obtain ⟨v, hv, rfl⟩ := List.mem_map.mp h
    exact fresh (hs.distinct.command_mem v hv)
  rw [Layer.phaseOf, if_neg hdead, if_neg fresh]

theorem phaseOf_next {s : Layer} (hs : Sound s) :
    s.phaseOf (.entry s.entries) = .untouched := by
  have hdead : s.entries ∉ s.live.map WaitingCommand.addr := by
    intro h
    obtain ⟨v, hv, hva⟩ := List.mem_map.mp h
    have := hs.distinct.addr_lt v hv
    omega
  rw [Layer.phaseOf, if_neg hdead, if_neg (Nat.lt_irrefl _)]

/-- A submission that is kept acquires the buffer and the entry. -/
theorem run_submit {s : Layer} (hs : Sound s) {l : Label} {w : WaitingCommand}
    (sub : l.entry? s = some w) (fresh : w.command ∉ s.buffers) (r : Resource) :
    run r (some (s.phaseOf r)) (ledger [.handedIn w.command, .osiCalloc w]) =
      some (if r = .buffer w.command ∨ r = .entry w.addr then .held else s.phaseOf r) := by
  obtain ⟨ha, -, -⟩ := entry?_eq_some sub
  by_cases hb : r = .buffer w.command
  · subst hb
    simp [Act.events, advance, Event.resource, phaseOf_fresh hs fresh, Phase.next]
  · by_cases he : r = .entry w.addr
    · subst he
      simp [Act.events, advance, Event.resource, ha, phaseOf_next hs, Phase.next]
    · simp [Act.events, advance, Event.resource, hb, he, Ne.symm hb, Ne.symm he]

/-- A received packet is acquired. -/
theorem run_handedIn {s : Layer} (hs : Sound s) {b : ℕ} (fresh : b ∉ s.buffers) (r : Resource) :
    run r (some (s.phaseOf r)) (ledger [.handedIn b]) =
      some (if r = .buffer b then .held else s.phaseOf r) := by
  by_cases hb : r = .buffer b
  · subst hb
    simp [Act.events, advance, Event.resource, phaseOf_fresh hs fresh, Phase.next]
  · simp [Act.events, advance, Event.resource, hb, Ne.symm hb]

/-- A received packet is handed on, or freed. -/
theorem run_released_handedIn {s : Layer} {b : ℕ} {a : Act}
    (ha : a.events = [.release (.buffer b)]) (r : Resource) :
    run r (some (if r = .buffer b then .held else s.phaseOf r)) (ledger [a]) =
      some (if r = .buffer b then .gone else s.phaseOf r) := by
  have hledger : ledger [a] = [.release (.buffer b)] := by
    rw [ledger, List.flatMap_singleton, ha]
  rw [hledger]
  by_cases hb : r = .buffer b
  · subst hb
    simp
  · simp [advance, Event.resource, hb, Ne.symm hb]

/-- Uses of live entries, after the packet has been received. -/
theorem run_uses_handedIn {s : Layer} {b : ℕ} {ws : List WaitingCommand} (h : ws ⊆ s.live)
    (r : Resource) :
    let p := some (if r = .buffer b then .held else s.phaseOf r)
    run r p (ledger (ws.map .touch)) = p ∧ run r p (ledger (ws.map .postTask)) = p := by
  by_cases hb : r = .buffer b
  · have hne : ∀ f : WaitingCommand → Act, (∀ w, (f w).events = [.use (.entry w.addr)]) →
        ∀ e ∈ ledger (ws.map f), e.resource ≠ r := by
      rintro f hf e he rfl
      obtain ⟨a, ha, hea⟩ := List.mem_flatMap.mp he
      obtain ⟨w, -, rfl⟩ := List.mem_map.mp ha
      rw [hf w, List.mem_singleton] at hea
      subst hea
      cases hb
    exact ⟨run_of_forall_ne (hne .touch fun _ => rfl) _,
      run_of_forall_ne (hne .postTask fun _ => rfl) _⟩
  · simp only [if_neg hb]
    exact run_uses h r

/-- Delivering the packet that has just been received to a live entry. -/
theorem run_deliver_handedIn {s : Layer} (hs : Sound s) {packet : BtHdr} {w : WaitingCommand}
    (fresh : packet.addr ∉ s.buffers) (hw : w ∈ s.live) (r : Resource) :
    run r (some (if r = .buffer packet.addr then .held else s.phaseOf r))
        (ledger (deliver packet w)) =
      some (if r = .buffer packet.addr ∨ r = .buffer w.command ∨ r = .entry w.addr then .gone
        else s.phaseOf r) := by
  have hne : packet.addr ≠ w.command := by
    intro h
    exact fresh (h ▸ hs.distinct.command_mem w hw)
  obtain ⟨hp, hc, he, hother⟩ := run_deliver hne
  by_cases hrp : r = .buffer packet.addr
  · subst hrp
    simpa using hp
  · rw [if_neg hrp]
    by_cases hrc : r = .buffer w.command
    · subst hrc
      simpa [phaseOf_command hw] using hc
    · by_cases hre : r = .entry w.addr
      · subst hre
        simpa [phaseOf_entry hw] using he
      · rw [hother r hrp hrc hre]
        simp [hrp, hrc, hre]

/-- **One step** takes every resource from its phase to its new phase. -/
theorem Effect.ledger {s s' : Layer} {l : Label} {acts : List Act} (e : Effect s l s' acts)
    (alive : l.Alive) (hs : Sound s) (r : Resource) :
    run r (some (s.phaseOf r)) (Hci.ledger acts) = some (s'.phaseOf r) := by
  have hlive := e.live hs
  cases e with
  | @refused l w sub fresh credits gone =>
    -- allocated, used and freed at once
    obtain ⟨ha, -, -⟩ := entry?_eq_some sub
    rw [phaseOf_accept hs ha fresh, show [Act.handedIn w.command, .osiCalloc w, .touch w,
      .free w.command, .osiFree w] = [.handedIn w.command, .osiCalloc w] ++
        [.touch w, .free w.command, .osiFree w] from rfl, ledger_append, run_append,
      run_submit hs sub fresh]
    by_cases hb : r = .buffer w.command
    · subst hb
      simp [Act.events, advance, Event.resource, Phase.next]
    · by_cases he : r = .entry w.addr
      · subst he
        simp [Act.events, advance, Event.resource, Phase.next]
      · simp [Act.events, advance, Event.resource, hb, he, Ne.symm hb, Ne.symm he]
  | @posted l w tasks sub fresh credits loop =>
    obtain ⟨ha, -, -⟩ := entry?_eq_some sub
    refine Eq.trans ?_ (congrArg some
      (phaseOf_keep (w := w) (by simpa using hlive) rfl rfl ha r).symm)
    rw [show [Act.handedIn w.command, .osiCalloc w, .postTask w] =
      [.handedIn w.command, .osiCalloc w] ++ [.postTask w] from rfl, ledger_append, run_append,
      run_submit hs sub fresh]
    refine run_of_forall_use fun e he => ⟨.entry w.addr, ?_, fun hr => ?_⟩
    · simpa [Act.events] using he
    · rw [if_pos (.inr hr.symm)]
  | @queued l w sub fresh credits =>
    obtain ⟨ha, -, -⟩ := entry?_eq_some sub
    refine Eq.trans (run_submit hs sub fresh r) (congrArg some
      (phaseOf_keep (w := w) (by simpa using hlive) rfl rfl ha r).symm)
  | @sent w tasks loop life =>
    have hw : w ∈ s.live := by simp [Layer.live, Layer.posted, loop, Task.command?]
    refine Eq.trans ?_ (congrArg some
      (phaseOf_perm (s := s) (by simpa using hlive) (by simp) (by simp) r).symm)
    refine run_of_forall_use fun e he => ?_
    have he' : e = .use (.entry w.addr) ∨ e = .use (.buffer w.command) := by
      simpa [Act.events] using he
    rcases he' with rfl | rfl
    · exact ⟨_, rfl, fun hr => by rw [← hr, phaseOf_entry hw]⟩
    · exact ⟨_, rfl, fun hr => by rw [← hr, phaseOf_command hw]⟩
  | quit loop =>
    refine Eq.trans ?_ (congrArg some (phaseOf_perm (s := s) ?_ ?_ ?_ r).symm)
    · rfl
    · simpa using hlive
    · rfl
    · rfl
  | @answered packet opcode credits w l₁ l₂ ts fresh ans waiting takes looked r' posts =>
    have frame := creditFrame posts
    obtain ⟨ws, hws, hacts⟩ := frame.posts
    have hw : w ∈ s.live := List.mem_append_right _ (by rw [waiting]; simp)
    have hts : ts ⊆ s.live := fun v hv => List.mem_append_right _ (looked v hv)
    have hone : [w] ⊆ s.live := List.cons_subset.mpr ⟨hw, List.nil_subset _⟩
    have hq : ws ⊆ s.live := fun v hv =>
      List.mem_append_left _ (List.mem_append_left _ (hws hv))
    refine Eq.trans ?_ (congrArg some (phaseOf_answered (w := w) (b := packet.addr) hs ?_ ?_ ?_
      fresh r).symm)
    · have hremove : Hci.ledger [.listRemove w] = Hci.ledger ([w].map .touch) := rfl
      rw [hacts]
      simp only [ledger_append, run_append, hremove]
      rw [run_handedIn hs fresh, (run_uses_handedIn hts r).1, (run_uses_handedIn hone r).1,
        (run_uses_handedIn hq r).2, run_deliver_handedIn hs fresh hw]
    · simpa [hacts] using hlive
    · simpa [Layer.receive] using frame.buffers
    · simpa [Layer.receive] using frame.entries
  | @unanswered packet opcode credits ts fresh ans none looked r' posts =>
    have frame := creditFrame posts
    obtain ⟨ws, hws, hacts⟩ := frame.posts
    have hts : ts ⊆ s.live := fun v hv => List.mem_append_right _ (looked v hv)
    have hq : ws ⊆ s.live := fun v hv =>
      List.mem_append_left _ (List.mem_append_left _ (hws hv))
    refine Eq.trans ?_ (congrArg some (phaseOf_receive (b := packet.addr) hs ?_ ?_ ?_
      fresh r).symm)
    · rw [hacts]
      simp only [ledger_append, run_append]
      rw [run_handedIn hs fresh, (run_uses_handedIn hts r).1, (run_uses_handedIn hq r).2,
        run_released_handedIn rfl]
    · simpa [hacts] using hlive
    · exact frame.buffers
    · exact frame.entries
  | @other packet a fresh ans act =>
    refine Eq.trans ?_ (congrArg some (phaseOf_receive (s := s) (b := packet.addr) hs ?_ ?_ ?_
      fresh r).symm)
    · rw [show [Act.handedIn packet.addr, a] = [.handedIn packet.addr] ++ [a] from rfl,
        ledger_append, run_append, run_handedIn hs fresh,
        run_released_handedIn (by rcases act with rfl | rfl <;> rfl)]
    · rcases act with rfl | rfl <;> simpa using hlive
    · rfl
    · rfl
  | _ => exact alive.elim

/-! ### Every run -/

/-- With the loop alive it stays, and an entry is freed only when it has been answered. -/
theorem Effect.loop_stays {s s' : Layer} {l : Label} {acts : List Act} (e : Effect s l s' acts)
    (alive : l.Alive) (loop : s.messageLoop ≠ none) :
    s'.messageLoop ≠ none ∧ destroyed acts = removed acts := by
  cases e with
  | refused sub fresh credits gone => exact absurd gone loop
  | posted sub fresh credits loop' => exact ⟨by simp, by simp⟩
  | queued sub fresh credits => exact ⟨loop, by simp⟩
  | sent loop' life => exact ⟨by simp, by simp⟩
  | quit loop' => exact ⟨by simp, rfl⟩
  | @answered packet opcode credits w l₁ l₂ ts fresh ans waiting takes looked r posts =>
    have frame := creditFrame posts
    obtain ⟨ws, -, hws⟩ := frame.posts
    exact ⟨by simpa [frame.loop, Layer.receive] using loop, by simp [hws]⟩
  | @unanswered packet opcode credits ts fresh ans none looked r posts =>
    have frame := creditFrame posts
    obtain ⟨ws, -, hws⟩ := frame.posts
    exact ⟨by simpa [frame.loop, Layer.receive] using loop, by simp [hws]⟩
  | other fresh ans act => exact ⟨loop, by rcases act with rfl | rfl <;> simp⟩
  | _ => exact alive.elim

/-- An event's packet is new to the layer, and known to it afterwards. -/
theorem Effect.packet_noted {s s' : Layer} {packet : BtHdr} {acts : List Act}
    (e : Effect s (.hciEventReceived packet) s' acts) :
    packet.addr ∉ s.buffers ∧ packet.addr ∈ s'.buffers ∧ made acts = [] := by
  generalize hl : Label.hciEventReceived packet = l at e
  cases e with
  | @answered packet' opcode credits w l₁ l₂ ts fresh ans waiting takes looked r posts =>
    cases hl
    have frame := creditFrame posts
    obtain ⟨ws, -, hws⟩ := frame.posts
    exact ⟨fresh, by simp [frame.buffers, Layer.receive], by simp [hws]⟩
  | @unanswered packet' opcode credits ts fresh ans none looked r posts =>
    cases hl
    have frame := creditFrame posts
    obtain ⟨ws, -, hws⟩ := frame.posts
    exact ⟨fresh, by simp [frame.buffers, Layer.receive], by simp [hws]⟩
  | other fresh ans act =>
    cases hl
    exact ⟨fresh, by simp [Layer.receive], by rcases act with rfl | rfl <;> simp⟩
  | refused sub => cases hl; cases sub
  | posted sub => cases hl; cases sub
  | queued sub => cases hl; cases sub
  | _ => cases hl

/-- A received packet is gone at the end of the step that received it. -/
theorem Effect.packet_gone {s s' : Layer} {packet : BtHdr} {acts : List Act}
    (e : Effect s (.hciEventReceived packet) s' acts) (hs : Sound s) :
    s'.phaseOf (.buffer packet.addr) = .gone := by
  obtain ⟨fresh, noted, hmade⟩ := e.packet_noted
  have hdead : packet.addr ∉ s'.live.map WaitingCommand.command := by
    intro h
    obtain ⟨v, hv, hvp⟩ := List.mem_map.mp h
    have hlive := (e.live hs).mem_iff.mp (List.mem_append_left _ hv)
    rw [hmade, List.append_nil] at hlive
    exact fresh (hvp ▸ hs.distinct.command_mem v hlive)
  rw [Layer.phaseOf, if_neg hdead, if_pos noted]

/-- What a destroyed entry held is gone at the end of the step. -/
theorem Effect.destroyed_gone {s s' : Layer} {l : Label} {acts : List Act}
    (e : Effect s l s' acts) (hs : Sound s) {w : WaitingCommand} (hw : w ∈ destroyed acts) :
    s'.phaseOf (.buffer w.command) = .gone ∧ s'.phaseOf (.entry w.addr) = .gone := by
  have hdist := (e.distinct hs).perm (e.live hs)
  have hmem : w ∈ s'.live ++ destroyed acts := List.mem_append_right _ hw
  have hdead : ∀ f : WaitingCommand → ℕ, ((s'.live ++ destroyed acts).map f).Nodup →
      f w ∉ s'.live.map f := by
    intro f hnd h
    rw [List.map_append, List.nodup_append] at hnd
    exact hnd.2.2 _ h _ (List.mem_map_of_mem hw) rfl
  refine ⟨?_, ?_⟩
  · rw [Layer.phaseOf, if_neg (hdead _ hdist.commands_nodup),
      if_pos (hdist.command_mem w hmem)]
  · rw [Layer.phaseOf, if_neg (hdead _ hdist.addrs_nodup), if_pos (hdist.addr_lt w hmem)]

theorem processCommandCredits_timer (credits : Int) (s : Layer) :
    (processCommandCredits credits s).1.commandResponseTimer = s.commandResponseTimer := by
  cases hl : s.messageLoop with
  | none => rw [processCommandCredits_of_none credits hl]
  | some tasks =>
    obtain ⟨q₁, q₂, -, heq, -, -⟩ := processCommandCredits_spec credits hl
    rw [heq]

/-- The timer's context is an entry of the pending list. -/
def TimerPending (s : Layer) : Prop :=
  ∀ n, s.commandResponseTimer = .armed (some n) → n ∈ s.waiting.map WaitingCommand.addr

theorem timerPending_update (s : Layer) : TimerPending (updateCommandResponseTimer s) := by
  intro n hn
  rw [updateCommandResponseTimer_waiting]
  rw [updateCommandResponseTimer] at hn
  split at hn
  · rename_i hfreed
    rw [hfreed] at hn
    cases hn
  · split at hn
    · cases hn
    · rename_i w ws hw
      cases hn
      rw [hw]
      simp

theorem Effect.timerPending {s s' : Layer} {l : Label} {acts : List Act}
    (e : Effect s l s' acts) (alive : l.Alive) (ht : TimerPending s) : TimerPending s' := by
  cases e with
  | refused sub fresh credits gone => exact ht
  | posted sub fresh credits loop => exact ht
  | queued sub fresh credits => exact ht
  | sent loop life => exact timerPending_update _
  | quit loop => exact ht
  | answered fresh ans waiting takes looked posts => exact timerPending_update _
  | @unanswered packet opcode credits ts fresh ans none looked r posts =>
    have frame := creditFrame posts
    have htimer := processCommandCredits_timer credits.toNat (s.receive packet)
    rw [← posts] at htimer
    intro n hn
    rw [htimer] at hn
    rw [Layer.waiting, frame.pending]
    exact ht n hn
  | other fresh ans act => exact ht
  | _ => exact alive.elim

/-- The invariant of the runs with the loop alive: every resource is in its phase, packets are gone
and so are the commands that have been answered, and there are no other commands than these and the
live ones. -/
structure Accounted (tr : List (Label × List Act)) (s : Layer) : Prop where
  sound : Sound s
  loop : s.messageLoop ≠ none
  phases : ∀ r, phase r (ledger (history tr)) = some (s.phaseOf r)
  received : ∀ packet, Label.hciEventReceived packet ∈ tr.map Prod.fst →
    phase (.buffer packet.addr) (ledger (history tr)) = some .gone
  answered : ∀ w ∈ removed (history tr),
    phase (.buffer w.command) (ledger (history tr)) = some .gone ∧
      phase (.entry w.addr) (ledger (history tr)) = some .gone
  kept : ∀ w ∈ made (history tr), w ∈ s.live ∨ w ∈ removed (history tr)
  timer : TimerPending s

theorem Accounted.step {tr : List (Label × List Act)} {s s' : Layer} {l : Label} {acts : List Act}
    (h : Accounted tr s) (alive : l.Alive) (hstep : step s l = some (s', acts)) :
    Accounted (tr ++ [(l, acts)]) s' := by
  have e := step_cases h.sound.waiting.addrs_nodup hstep
  obtain ⟨hloop, hdest⟩ := e.loop_stays alive h.loop
  have hphases : ∀ r, phase r (ledger (history (tr ++ [(l, acts)]))) = some (s'.phaseOf r) := by
    intro r
    rw [history_snoc, ledger_append, phase_append, h.phases]
    exact e.ledger alive h.sound r
  -- what was gone stays gone: nothing is out of order
  have hforever : ∀ r, phase r (ledger (history tr)) = some .gone →
      phase r (ledger (history (tr ++ [(l, acts)]))) = some .gone := by
    intro r hr
    have hok := hphases r
    rw [history_snoc, ledger_append] at hok ⊢
    exact gone_of_append hr (by rw [hok]; exact Option.some_ne_none _)
  refine ⟨h.sound.step hstep, hloop, hphases, ?_, ?_, ?_, e.timerPending alive h.timer⟩
  · intro packet hmem
    rw [List.map_append, List.map_singleton] at hmem
    rcases List.mem_append.mp hmem with hmem | hmem
    · exact hforever _ (h.received packet hmem)
    · obtain rfl := List.mem_singleton.mp hmem
      rw [hphases, e.packet_gone h.sound]
  · intro w hw
    rw [history_snoc, removed_append] at hw
    rcases List.mem_append.mp hw with hw | hw
    · exact ⟨hforever _ (h.answered w hw).1, hforever _ (h.answered w hw).2⟩
    · obtain ⟨hc, ha⟩ := e.destroyed_gone h.sound (hdest ▸ hw)
      rw [hphases, hphases, hc, ha]
      exact ⟨rfl, rfl⟩
  · intro w hw
    have hin : w ∈ s.live ++ made acts ∨ w ∈ removed (history tr) := by
      rw [history_snoc, made_append] at hw
      rcases List.mem_append.mp hw with hw | hw
      · exact (h.kept w hw).imp_left (List.mem_append_left _)
      · exact .inl (List.mem_append_right _ hw)
    rw [history_snoc, removed_append]
    rcases hin with hin | hin
    · rw [← (e.live h.sound).mem_iff, hdest] at hin
      rcases List.mem_append.mp hin with hin | hin
      · exact .inl hin
      · exact .inr (List.mem_append_right _ hin)
    · exact .inr (List.mem_append_left _ hin)

theorem accounted_of_run {tr : List (Label × List Act)} {s : Layer}
    (h : RunWhere step (fun _ => Label.Alive) started tr s) : Accounted tr s := by
  refine h.invariant (P := Accounted) ?_ fun hacc alive hstep => hacc.step alive hstep
  refine ⟨sound_started, by simp [started], ?_, by simp, by simp, by simp, ?_⟩
  · intro r
    cases r <;> simp [phase, Layer.phaseOf, started, Layer.live, Layer.posted, Layer.waiting]
  · intro n hn
    cases hn

/-- **Ownership is linear**, in every run with the message loop alive.

Every event packet received so far has been released exactly once, by freeing it or by handing it
over, and not touched afterwards. A command that has been submitted is released exactly once, with
its entry, if it has been answered, and not at all if it has not. The timer's context is an entry
that is not released. -/
theorem ownership_linear {tr : List (Label × List Act)} {s : Layer}
    (h : RunWhere step (fun _ => Label.Alive) started tr s) :
    (∀ packet, Label.hciEventReceived packet ∈ tr.map Prod.fst →
      ReleasedOnce (.buffer packet.addr) (ledger (history tr))) ∧
    (∀ w ∈ made (history tr),
      (w ∈ removed (history tr) →
        ReleasedOnce (.buffer w.command) (ledger (history tr)) ∧
          ReleasedOnce (.entry w.addr) (ledger (history tr))) ∧
      (w ∉ removed (history tr) → ∀ e ∈ ledger (history tr),
        e ≠ .release (.buffer w.command) ∧ e ≠ .release (.entry w.addr))) ∧
    ∀ n, s.commandResponseTimer = .armed (some n) →
      ∀ e ∈ ledger (history tr), e ≠ .release (.entry n) := by
  have hacc := accounted_of_run h
  refine ⟨fun packet hp => releasedOnce_of_gone (hacc.received packet hp),
    fun w hw => ⟨fun hans => ?_, fun hans e he => ?_⟩, fun n hn => ?_⟩
  · exact ⟨releasedOnce_of_gone (hacc.answered w hans).1,
      releasedOnce_of_gone (hacc.answered w hans).2⟩
  · have hlive : w ∈ s.live := (hacc.kept w hw).resolve_right hans
    refine ⟨unreleased_of_held ?_ e he, unreleased_of_held ?_ e he⟩
    · rw [hacc.phases, phaseOf_command hlive]
    · rw [hacc.phases, phaseOf_entry hlive]
  · obtain ⟨w, hw, rfl⟩ := List.mem_map.mp (hacc.timer n hn)
    refine unreleased_of_held ?_
    rw [hacc.phases, phaseOf_entry (List.mem_append_right _ hw)]

/-- A command with a status callback is answered by a Command Status, and an unsolicited Command
Complete follows. -/
theorem ownership_linear_status :
    let w : WaitingCommand := ⟨0, 0x0406, none, some 7, some 8, 9, 0⟩
    let tr : List (Label × List Act) :=
      [(.transmitCommand ⟨0, 0, [0x06, 0x04, 0x00]⟩ (some 7) (some 8) 9,
          [.handedIn 0, .osiCalloc w, .postTask w]),
        (.runTask, [.touch w, .listAppend w, .touch w, .fragmentAndDispatch 0]),
        (.hciEventReceived ⟨1, 0, [0x0F, 0x04, 0x00, 0x01, 0x06, 0x04]⟩,
          [.handedIn 1, .touch w, .listRemove w, .touch w, .statusCallback 8 0 0 9, .touch w,
            .free 1, .osiFree w]),
        (.hciEventReceived ⟨2, 0, [0x0E, 0x04, 0x01, 0x06, 0x04, 0x00]⟩, [.handedIn 2, .free 2])]
    (∀ packet, Label.hciEventReceived packet ∈ tr.map Prod.fst →
      ReleasedOnce (.buffer packet.addr) (ledger (history tr))) ∧
    (∀ v ∈ made (history tr),
      (v ∈ removed (history tr) →
        ReleasedOnce (.buffer v.command) (ledger (history tr)) ∧
          ReleasedOnce (.entry v.addr) (ledger (history tr))) ∧
      (v ∉ removed (history tr) → ∀ e ∈ ledger (history tr),
        e ≠ .release (.buffer v.command) ∧ e ≠ .release (.entry v.addr))) ∧
    ∀ n, Timer.cancelled = .armed (some n) →
      ∀ e ∈ ledger (history tr), e ≠ .release (.entry n) :=
  ownership_linear (s := ⟨.up, 1, [], some [], some [], .cancelled, [2, 1, 0], 1, 0⟩) <|
    run_of_exec <|
      show exec step (fun _ => Label.Alive) _
        [.transmitCommand ⟨0, 0, [0x06, 0x04, 0x00]⟩ (some 7) (some 8) 9, .runTask,
          .hciEventReceived ⟨1, 0, [0x0F, 0x04, 0x00, 0x01, 0x06, 0x04]⟩,
          .hciEventReceived ⟨2, 0, [0x0E, 0x04, 0x01, 0x06, 0x04, 0x00]⟩] = some (_, _) from rfl

end Hci

end A1000

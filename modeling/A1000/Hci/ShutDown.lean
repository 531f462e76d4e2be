import A1000.Hci.Live

/-!
# Waiters at shut-down

`future_await` has no timeout: a future whose wait entry dies without readying it blocks its
waiter forever. An entry with a future dies well when an event answers it, of whatever kind
(`readied_deliver`). The other ways it can die are found here, in every order with shut-down:

* `enqueue_command` frees it when there are credits and the loop is gone;
* it is a task on the loop when `message_loop_run` deletes the loop;
* it is on the pending list when `hci_module_shut_down` frees the list.

None of them readies the future. An entry in the queue survives all three: the queue is never
cleared, and the next start-up goes on with it.

## Main definitions

* `Hci.NoneAsleep` — every entry that dies has its future readied
* `Hci.WakesAll` — the step is none of the three above with a future at stake

## Main results

* `Hci.waiters_woken_iff` — in a run none is left asleep exactly when every step of it `WakesAll`
-/

namespace A1000

namespace Hci

open StepSystem

/-- The futures of the entries that a step frees, takes off the pending list or forgets have all
been readied by the end of the step. -/
def WokenAfter (tr : List (Label × List Act)) (_l : Label) (acts : List Act) : Prop :=
  ∀ w ∈ destroyed acts ++ removed acts, ∀ f, w.completeFuture = some f →
    ∃ packet, (f, packet) ∈ readied (history tr ++ acts)

/-- **No futured command is dropped with its waiter still asleep.** -/
def NoneAsleep (tr : List (Label × List Act)) : Prop := Always WokenAfter tr

/-- The step puts no waiter to sleep for good: a futured submission does not find credits without
a loop, the loop is not deleted with a futured command posted to it, and the list is not freed
with a futured command pending. -/
def WakesAll (s : Layer) : Label → Prop
  | .transmitCommandFutured _ => ¬ (s.commandCredits > 0 ∧ s.messageLoop = none)
  | .loopExit => ∀ w ∈ s.posted, w.completeFuture = none
  | .closeHci => ∀ w ∈ s.waiting, w.completeFuture = none
  | _ => True

instance (s : Layer) : DecidablePred (WakesAll s)
  | .transmitCommandFutured _ => inferInstanceAs (Decidable (¬ (_ ∧ _)))
  | .loopExit => inferInstanceAs (Decidable (∀ w ∈ s.posted, w.completeFuture = none))
  | .closeHci => inferInstanceAs (Decidable (∀ w ∈ s.waiting, w.completeFuture = none))
  | .transmitCommand .. | .runTask | .hciEventReceived _ | .shutDown | .startUp | .loopStart =>
    isTrue trivial

/-- Live commands that are forgotten together sleep unless none of them has a future. -/
theorem wokenAfter_forget {tr : List (Label × List Act)} {l : Label} {s : Layer}
    (hw : Woken (history tr) s) {ws : List WaitingCommand} (hlive : ws ⊆ s.live) :
    WokenAfter tr l (ws.map .forget) ↔ ∀ w ∈ ws, w.completeFuture = none := by
  have hdest : destroyed (ws.map .forget) = ws := by
    simp [destroyed, List.filterMap_map, Function.comp_def]
  have hready : readied (ws.map .forget) = [] := by simp [readied, List.filterMap_map]
  have hrem : removed (ws.map .forget) = [] := by simp [removed, List.filterMap_map]
  rw [WokenAfter, hdest, hrem, List.append_nil]
  simp only [readied_append, hready, List.append_nil]
  constructor
  · intro h w hmem
    by_contra hf
    obtain ⟨f, hf⟩ := Option.ne_none_iff_exists'.mp hf
    obtain ⟨packet, hp⟩ := h w hmem f hf
    exact hw.dead _ hp w (hlive hmem) hf
  · intro h w hmem f hf
    rw [h w hmem] at hf
    cases hf

/-- **One step**: the entries that die in it have their futures readied exactly when it is none of
the three. -/
theorem wokenAfter_iff {tr : List (Label × List Act)} {s s' : Layer} {l : Label} {acts : List Act}
    (hs : Sound s) (hw : Woken (history tr) s) (e : Effect s l s' acts) :
    WokenAfter tr l acts ↔ WakesAll s l := by
  rcases e.readies hs with ⟨hready, hrem⟩ | ⟨packet, w, -, rfl, hrem, hdest, hready⟩
  · cases e with
    | @refused l w sub fresh credits gone =>
      obtain ⟨-, hfut, -⟩ := entry?_eq_some sub
      have hold : ∀ p, (s.futures, p) ∉ readied (history tr) := fun p hp =>
        Nat.lt_irrefl _ (hw.lt _ hp)
      cases l with
      | transmitCommand command cb scb context =>
        cases sub
        simp [WokenAfter, WakesAll]
      | transmitCommandFutured command =>
        cases sub
        simp [WokenAfter, WakesAll, credits, gone, hold]
      | _ => cases sub
    | posted sub fresh credits loop =>
      cases l <;> simp [WokenAfter, WakesAll, loop] <;> cases sub
    | queued sub fresh credits =>
      cases l <;> simp [WokenAfter, WakesAll, credits] <;> cases sub
    | loopExit life =>
      refine wokenAfter_forget hw fun w hw => ?_
      exact List.mem_append_left _ (List.mem_append_right _ hw)
    | closeHci life => exact wokenAfter_forget hw fun w hw => List.mem_append_right _ hw
    | answered fresh ans waiting takes looked posts => simp at hrem
    | @unanswered packet opcode credits ts fresh ans none looked r posts =>
      obtain ⟨ws, -, hws⟩ := (creditFrame posts).posts
      simp [WokenAfter, WakesAll, hws]
    | other fresh ans act => rcases act with rfl | rfl <;> simp [WokenAfter, WakesAll]
    | _ => simp [WokenAfter, WakesAll]
  · have hall : WokenAfter tr (.hciEventReceived packet) acts := by
      intro v hv f hf
      have hvw : v = w := by simpa [hrem, hdest] using hv
      refine ⟨packet.addr, ?_⟩
      simp [hready, ← hvw, hf]
    exact ⟨fun _ => trivial, fun _ => hall⟩

/-- **In every run**, none is left asleep exactly when every step wakes its waiters. -/
theorem waiters_woken_iff {tr : List (Label × List Act)} {s : Layer} (h : Run step started tr s) :
    NoneAsleep tr ↔ RunWhere step WakesAll started tr s := by
  refine Run.always_iff ?_ h
  intro tr s l t acts hrun hstep
  exact wokenAfter_iff (sound_of_run hrun) (readied_of_run hrun) (effect_of_run hrun hstep)

/-- Read Local Version Information, as a futured command. -/
def readLocalVersion (addr : ℕ) : BtHdr := ⟨addr, 0, [0x01, 0x10, 0x00]⟩

/-- Its Command Status, unknown command, one credit. -/
def unknownCommand (addr : ℕ) : BtHdr := ⟨addr, 0, [0x0F, 0x04, 0x01, 0x01, 0x01, 0x10]⟩

/-- A futured command that is answered by a Command Status, and a shut-down after it. -/
theorem waiters_woken_iff_answered :
    NoneAsleep
      [(.transmitCommandFutured (readLocalVersion 0),
          [.handedIn 0, .osiCalloc ⟨0, 0x1001, some 0, none, none, 0, 0⟩,
            .postTask ⟨0, 0x1001, some 0, none, none, 0, 0⟩]),
        (.runTask,
          [.touch ⟨0, 0x1001, some 0, none, none, 0, 0⟩,
            .listAppend ⟨0, 0x1001, some 0, none, none, 0, 0⟩,
            .touch ⟨0, 0x1001, some 0, none, none, 0, 0⟩, .fragmentAndDispatch 0]),
        (.hciEventReceived (unknownCommand 1),
          [.handedIn 1, .touch ⟨0, 0x1001, some 0, none, none, 0, 0⟩,
            .listRemove ⟨0, 0x1001, some 0, none, none, 0, 0⟩,
            .touch ⟨0, 0x1001, some 0, none, none, 0, 0⟩, .futureReady 0 1,
            .touch ⟨0, 0x1001, some 0, none, none, 0, 0⟩, .free 0,
            .osiFree ⟨0, 0x1001, some 0, none, none, 0, 0⟩]),
        (.shutDown, []), (.runTask, []), (.loopExit, []), (.closeHci, [])] := by
  refine (waiters_woken_iff (s := ⟨.off, 1, [], none, none, .freed, [1, 0], 1, 1⟩) ?_).mpr ?_
  all_goals
    exact run_of_exec <|
      show exec step _ _ [.transmitCommandFutured (readLocalVersion 0), .runTask,
        .hciEventReceived (unknownCommand 1), .shutDown, .runTask, .loopExit, .closeHci] =
          some (_, _) from rfl

/-- A futured command submitted after the loop is gone: its entry is freed, and its waiter sleeps
for good. -/
theorem waiters_woken_not_always :
    ¬ ∀ (tr : List (Label × List Act)) (s : Layer), Run step started tr s → NoneAsleep tr := by
  intro hall
  have hrun : Run step started
      [(.shutDown, []), (.runTask, []), (.loopExit, []),
        (.transmitCommandFutured (readLocalVersion 0),
          [.handedIn 0, .osiCalloc ⟨0, 0x1001, some 0, none, none, 0, 0⟩,
            .touch ⟨0, 0x1001, some 0, none, none, 0, 0⟩, .free 0,
            .osiFree ⟨0, 0x1001, some 0, none, none, 0, 0⟩])]
      ⟨.loopGone, 1, [], none, some [], .freed, [0], 1, 1⟩ :=
    run_of_exec <|
      show exec step _ _ [.shutDown, .runTask, .loopExit,
        .transmitCommandFutured (readLocalVersion 0)] = some (_, _) from rfl
  obtain ⟨packet, hp⟩ := hall _ _ hrun [(.shutDown, []), (.runTask, []), (.loopExit, [])]
    _ _ [] rfl ⟨0, 0x1001, some 0, none, none, 0, 0⟩ (by simp) 0 rfl
  simp [history] at hp

end Hci

end A1000

import A1000.Hci.Credits

/-!
# The order of the commands

A command reaches the message loop in one of two ways: `enqueue_command` posts it when a credit is
there, and `process_command_credits` takes it from the front of the queue when credits come back.
A direct post would overtake the queue if a credit could be there while commands wait. It cannot:
the loop of `process_command_credits` leaves either no command waiting or no credit.

Both functions hold `command_credits_mutex` from start to end, so what several threads do to the
queue is a sequence of calls. Between two calls anything else may happen to the layer, as long as
credits and queue are left alone and the loop is not taken away; in particular the number of waiting
commands, which `process_command_credits` subtracts, can be any number at each call.

## Main definitions

* `Hci.Call`, `Hci.Call.step` — the calls, and everything else, as a step system
* `Hci.Orderly` — no command waits while a credit is left, and the commands are posted in the order
  of their submission

## Main results

* `Hci.Orderly.step` — one call
* `Hci.calls_of_run` — every run of the layer with its loop alive is a run of calls
* `Hci.in_order` — the commands leave in order, for the calls and for the whole layer
-/

namespace A1000

namespace Hci

open StepSystem

/-! ### Calls -/

/-- What happens to the layer while its message loop is alive. -/
inductive Call
  | enqueueCommand (w : WaitingCommand)
  | processCommandCredits (credits : Int)
  /-- Any other code runs, and leaves the layer as `t`. -/
  | elsewhere (t : Layer)
  deriving DecidableEq, Repr

/-- `t` differs from `s` by nothing the two calls guard, and still has a loop. -/
def Layer.Untouched (s t : Layer) : Prop :=
  t.commandCredits = s.commandCredits ∧ t.commandQueue = s.commandQueue ∧ t.messageLoop ≠ none

instance (s t : Layer) : Decidable (s.Untouched t) :=
  inferInstanceAs (Decidable (_ ∧ _ ∧ _))

/-- The calls as a step system. -/
def Call.step (s : Layer) : Call → Option (Layer × List Act)
  | .enqueueCommand w => some (Hci.enqueueCommand w s)
  | .processCommandCredits credits => some (Hci.processCommandCredits credits s)
  | .elsewhere t => if s.Untouched t then some (t, []) else none

/-- The command a call submits. -/
def Call.submitted? : Call → Option WaitingCommand
  | .enqueueCommand w => some w
  | _ => none

/-- The commands submitted, oldest first. -/
def submitted (cs : List (Call × List Act)) : List WaitingCommand :=
  cs.filterMap fun c => c.1.submitted?

/-- The command an act posts. -/
def Act.post? : Act → Option WaitingCommand
  | .postTask w => some w
  | _ => none

/-- The commands posted to the message loop, oldest first. -/
def sent (acts : List Act) : List WaitingCommand := acts.filterMap Act.post?

/-- **The commands leave in order**, `ws` having been submitted and `acts` done: none waits while a
credit is left, and those posted, followed by those that wait, are those submitted. -/
structure Orderly (ws : List WaitingCommand) (acts : List Act) (s : Layer) : Prop where
  spent : s.commandQueue ≠ [] → s.commandCredits ≤ 0
  order : sent acts ++ s.commandQueue = ws

/-! ### Reading a history -/

@[simp] theorem submitted_nil : submitted [] = [] := rfl

@[simp] theorem submitted_append (cs ds : List (Call × List Act)) :
    submitted (cs ++ ds) = submitted cs ++ submitted ds :=
  List.filterMap_append

@[simp] theorem submitted_cons (c : Call) (acts : List Act) (cs : List (Call × List Act)) :
    submitted ((c, acts) :: cs) = c.submitted?.toList ++ submitted cs := by
  rw [submitted, List.filterMap_cons]
  cases c <;> rfl

@[simp] theorem sent_append (as bs : List Act) : sent (as ++ bs) = sent as ++ sent bs :=
  List.filterMap_append

@[simp] theorem sent_postTask (ws : List WaitingCommand) : sent (ws.map .postTask) = ws := by
  rw [sent, List.filterMap_map]
  exact List.filterMap_some

/-- Acts that post nothing. -/
theorem sent_eq_nil {acts : List Act} (h : posts acts = 0) : sent acts = [] := by
  rw [posts, List.countP_eq_zero] at h
  refine List.filterMap_eq_nil_iff.mpr fun a ha => ?_
  have hno := h a ha
  cases a <;> first | rfl | exact absurd rfl hno

@[simp] theorem history_append (cs ds : List (Call × List Act)) :
    history (cs ++ ds) = history cs ++ history ds :=
  List.flatMap_append

/-! ### One call -/

/-- `enqueue_command` with a loop: it posts the command, or puts it last. -/
theorem enqueueCommand_of_loop (w : WaitingCommand) {s : Layer} {tasks : List Task}
    (loop : s.messageLoop = some tasks) :
    enqueueCommand w s =
      if s.commandCredits > 0 then
        ({ s with
            messageLoop := some (tasks ++ [.commandReady w])
            commandCredits := s.commandCredits - 1 }, [.postTask w])
      else ({ s with commandQueue := s.commandQueue ++ [w] }, []) := by
  rw [enqueueCommand, loop]

/-- **One call** keeps the loop and the order. -/
theorem Orderly.step {ws : List WaitingCommand} {acts acts' : List Act} {s t : Layer} {c : Call}
    (h : Orderly ws acts s) (alive : s.messageLoop ≠ none) (next : c.step s = some (t, acts')) :
    t.messageLoop ≠ none ∧ Orderly (ws ++ c.submitted?.toList) (acts ++ acts') t := by
  obtain ⟨tasks, loop⟩ := Option.ne_none_iff_exists'.mp alive
  cases c with
  | enqueueCommand w =>
    rw [Call.step, enqueueCommand_of_loop w loop] at next
    by_cases hc : s.commandCredits > 0
    · -- a credit is there, so nobody waits whom the command could overtake
      have hempty : s.commandQueue = [] := by
        by_contra hne
        have := h.spent hne
        omega
      rw [if_pos hc] at next
      cases next
      refine ⟨by simp, fun hne => absurd hempty hne, ?_⟩
      have horder := h.order
      rw [hempty, List.append_nil] at horder
      show sent (acts ++ [w].map .postTask) ++ s.commandQueue = ws ++ [w]
      rw [sent_append, sent_postTask, hempty, List.append_nil, horder]
    · rw [if_neg hc] at next
      cases next
      refine ⟨alive, fun _ => Int.not_lt.mp hc, ?_⟩
      show sent (acts ++ []) ++ (s.commandQueue ++ [w]) = ws ++ [w]
      rw [List.append_nil, ← List.append_assoc, h.order]
  | processCommandCredits credits =>
    obtain ⟨q₁, q₂, hq, heq, -, hrest⟩ := processCommandCredits_spec credits loop
    rw [Call.step, heq] at next
    cases next
    refine ⟨by simp, fun hne => hrest.resolve_left hne, ?_⟩
    show sent (acts ++ q₁.map .postTask) ++ q₂ = ws ++ []
    rw [sent_append, sent_postTask, List.append_assoc, ← hq, h.order, List.append_nil]
  | elsewhere u =>
    rw [Call.step] at next
    split at next
    · rename_i same
      cases next
      obtain ⟨hcredits, hqueue, hloop⟩ := same
      refine ⟨hloop, ?_, ?_⟩
      · rw [hqueue, hcredits]
        exact h.spent
      · show sent (acts ++ []) ++ t.commandQueue = ws ++ []
        rw [List.append_nil, List.append_nil, hqueue, h.order]
    · cases next

/-- Every run of calls from a layer with a loop. The commands that wait already go first. -/
theorem orderly_of_calls {s₀ s : Layer} {cs : List (Call × List Act)}
    (alive : s₀.messageLoop ≠ none) (spent : s₀.commandQueue ≠ [] → s₀.commandCredits ≤ 0)
    (h : Run Call.step s₀ cs s) :
    s.messageLoop ≠ none ∧ Orderly (s₀.commandQueue ++ submitted cs) (history cs) s := by
  refine h.invariant (P := fun cs s =>
    s.messageLoop ≠ none ∧ Orderly (s₀.commandQueue ++ submitted cs) (history cs) s) ?_ ?_
  · exact ⟨alive, spent, by simp [sent]⟩
  · rintro cs s c t acts ⟨hloop, horder⟩ - next
    have hstep := horder.step hloop next
    simpa using hstep

/-! ### The whole layer -/

theorem Layer.Untouched.run {s t : Layer} (h : s.Untouched t) :
    Run Call.step s [(.elsewhere t, [])] t :=
  RunWhere.nil.snoc trivial (by rw [Call.step, if_pos h])

theorem run_enqueueCommand (w : WaitingCommand) (s : Layer) :
    Run Call.step s [(.enqueueCommand w, (enqueueCommand w s).2)] (enqueueCommand w s).1 :=
  RunWhere.nil.snoc trivial rfl

theorem run_processCommandCredits (credits : Int) (s : Layer) :
    Run Call.step s [(.processCommandCredits credits, (processCommandCredits credits s).2)]
      (processCommandCredits credits s).1 :=
  RunWhere.nil.snoc trivial rfl

/-- A command is handed in, and then enqueued. -/
theorem run_accept_enqueue (w : WaitingCommand) {s : Layer} (loop : s.messageLoop ≠ none) :
    Run Call.step s
      [(.elsewhere (s.accept w), []), (.enqueueCommand w, (enqueueCommand w (s.accept w)).2)]
      (enqueueCommand w (s.accept w)).1 :=
  have same : s.Untouched (s.accept w) := ⟨rfl, rfl, loop⟩
  same.run.append (run_enqueueCommand w (s.accept w))

theorem made_processCommandCredits (credits : Int) (s : Layer) :
    made (processCommandCredits credits s).2 = [] := by
  have frame : CreditFrame s (processCommandCredits credits s) := creditFrame rfl
  obtain ⟨ws, -, heq⟩ := frame.posts
  rw [heq, (reads_postTask ws).1]

theorem loop_processCommandCredits (credits : Int) {s : Layer} (loop : s.messageLoop ≠ none) :
    (processCommandCredits credits s).1.messageLoop ≠ none :=
  (creditFrame rfl).loop.not.mpr loop

/-- **One step of the layer is a few calls**, which submit and post the same commands. -/
theorem calls_of_effect {s s' : Layer} {l : Label} {acts : List Act} (e : Effect s l s' acts)
    (alive : l.Alive) (loop : s.messageLoop ≠ none) :
    ∃ cs, Run Call.step s cs s' ∧ submitted cs = made acts ∧ sent (history cs) = sent acts := by
  cases e with
  | refused sub fresh credits gone => exact absurd gone loop
  | @posted l w tasks sub fresh credits hloop =>
    have hrun := run_accept_enqueue w loop
    rw [enqueueCommand_of_loop w (s := s.accept w) hloop,
      if_pos (show (s.accept w).commandCredits > 0 from credits)] at hrun
    exact ⟨_, hrun, rfl, rfl⟩
  | @queued l w sub fresh credits =>
    obtain ⟨tasks, hloop⟩ := Option.ne_none_iff_exists'.mp loop
    have hrun := run_accept_enqueue w loop
    rw [enqueueCommand_of_loop w (s := s.accept w) hloop,
      if_neg (show ¬ (s.accept w).commandCredits > 0 from credits)] at hrun
    exact ⟨_, hrun, rfl, rfl⟩
  | sent hloop life =>
    exact ⟨_, Layer.Untouched.run ⟨by simp, by simp, by simp⟩, rfl, rfl⟩
  | quit hloop =>
    exact ⟨_, Layer.Untouched.run ⟨rfl, rfl, by simp⟩, rfl, rfl⟩
  | @answered packet opcode credits w l₁ l₂ ts fresh ans waiting takes looked r hposts =>
    subst hposts
    let u : Layer := { s.receive packet with commandsPendingResponse := some (l₁ ++ l₂) }
    have before : s.Untouched u := ⟨rfl, rfl, loop⟩
    have after : (processCommandCredits credits.toNat u).1.Untouched
        (updateCommandResponseTimer (processCommandCredits credits.toNat u).1) :=
      ⟨by simp, by simp, by simpa using loop_processCommandCredits credits.toNat (s := u) loop⟩
    refine ⟨_, (before.run.append (run_processCommandCredits credits.toNat u)).append after.run,
      ?_, ?_⟩
    · simp [Call.submitted?, made_processCommandCredits]
    · have htouch : sent (ts.map .touch) = [] := sent_eq_nil (posts_touch ts)
      have hdeliver : sent (deliver packet w) = [] := sent_eq_nil (posts_deliver packet w)
      have hpre : sent [.handedIn packet.addr] = [] := rfl
      have hremove : sent [.listRemove w] = [] := rfl
      simp only [sent_append, htouch, hdeliver, hpre, hremove, List.nil_append, List.append_nil]
      simp [history]
      rfl
  | @unanswered packet opcode credits ts fresh ans none looked r hposts =>
    subst hposts
    have before : s.Untouched (s.receive packet) := ⟨rfl, rfl, loop⟩
    refine ⟨_, before.run.append (run_processCommandCredits credits.toNat (s.receive packet)),
      ?_, ?_⟩
    · simp [Call.submitted?, made_processCommandCredits]
    · have htouch : sent (ts.map .touch) = [] := sent_eq_nil (posts_touch ts)
      have hpre : sent [.handedIn packet.addr] = [] := rfl
      have hfree : sent [.free packet.addr] = [] := rfl
      simp only [sent_append, htouch, hpre, hfree, List.nil_append, List.append_nil]
      simp [history]
  | other fresh ans act =>
    refine ⟨_, Layer.Untouched.run ⟨rfl, rfl, loop⟩, ?_, ?_⟩
    · rcases act with rfl | rfl <;> rfl
    · rcases act with rfl | rfl <;> rfl
  | _ => exact alive.elim

/-- **Every run of the layer with its loop alive is a run of calls.** -/
theorem calls_of_run {tr : List (Label × List Act)} {s : Layer}
    (h : RunWhere step (fun _ => Label.Alive) started tr s) :
    ∃ cs, Run Call.step started cs s ∧ submitted cs = made (history tr) ∧
      sent (history cs) = sent (history tr) := by
  induction h with
  | nil => exact ⟨[], .nil, rfl, rfl⟩
  | @snoc tr s t l acts run alive next ih =>
    obtain ⟨cs, hcs, hmade, hsent⟩ := ih
    have loop : s.messageLoop ≠ none := (orderly_of_calls (by simp [started]) (absurd rfl) hcs).1
    obtain ⟨ds, hds, hmade', hsent'⟩ := calls_of_effect (effect_of_run run next) alive loop
    refine ⟨cs ++ ds, hcs.append hds, ?_, ?_⟩
    · rw [submitted_append, hmade, hmade', history_snoc, made_append]
    · rw [history_append, sent_append, hsent, hsent', history_snoc, sent_append]

/-- **The commands leave in order, and none is stranded.** Whatever calls come in whatever order,
with whatever credits, no command waits in the queue while a credit is left, and the commands posted
to the loop, followed by those in the queue, are those that waited at first and then those
submitted; and so it is in the whole layer, as long as its loop is alive. -/
theorem in_order :
    (∀ {s₀ s : Layer} {cs : List (Call × List Act)}, s₀.messageLoop ≠ none →
      (s₀.commandQueue ≠ [] → s₀.commandCredits ≤ 0) → Run Call.step s₀ cs s →
        Orderly (s₀.commandQueue ++ submitted cs) (history cs) s) ∧
    ∀ {tr : List (Label × List Act)} {s : Layer},
      RunWhere step (fun _ => Label.Alive) started tr s →
        Orderly (made (history tr)) (history tr) s := by
  refine ⟨fun alive spent h => (orderly_of_calls alive spent h).2, fun h => ?_⟩
  obtain ⟨cs, hcs, hmade, hsent⟩ := calls_of_run h
  obtain ⟨-, spent, order⟩ := orderly_of_calls (by simp [started]) (absurd rfl) hcs
  exact ⟨spent, by rw [← hsent, ← hmade, order]; rfl⟩

/-- Three commands with one credit between them, then credits below and above zero; and the same
through the whole layer, where the second command waits for a grant. -/
theorem in_order_three :
    let w (n : ℕ) : WaitingCommand := ⟨n, 0x0C03, none, none, none, 0, n⟩
    Orderly [w 0, w 1, w 2] [.postTask (w 0), .postTask (w 1), .postTask (w 2)]
      { started with
        commandCredits := 3
        messageLoop := some [.commandReady (w 0), .commandReady (w 1), .commandReady (w 2)] } ∧
    Orderly [w 0, w 1]
      [.handedIn 0, .osiCalloc (w 0), .postTask (w 0), .handedIn 1, .osiCalloc (w 1),
        .handedIn 2, .postTask (w 1), .free 2]
      ⟨.up, 0, [], some [.commandReady (w 0), .commandReady (w 1)], some [], .cancelled, [2, 1, 0],
        2, 0⟩ := by
  intro w
  constructor
  · exact in_order.1 (show started.messageLoop ≠ none by simp [started]) (absurd rfl) <|
      run_of_exec <|
      show exec Call.step (fun _ _ => True) _ [.enqueueCommand (w 0), .enqueueCommand (w 1),
        .processCommandCredits (-1), .enqueueCommand (w 2), .processCommandCredits 5] =
          some (_, _) from rfl
  · exact in_order.2 <| run_of_exec <|
      show exec step (fun _ => Label.Alive) _ [.transmitCommand (plainCommand 0) none none 0,
        .transmitCommand (plainCommand 1) none none 0, .hciEventReceived (grantOne 2)] =
          some (_, _) from rfl

end Hci

end A1000

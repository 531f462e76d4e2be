import A1000.Hci.Live
import Mathlib.Data.Fintype.EquivFin

/-!
# Command flow control

The controller grants a number of command packets with every Command Complete and Command Status.
`process_command_credits` keeps what is left of the grant after the commands *on the pending list*
are subtracted. A command that has been posted to the loop and has not run yet is not on that list
and not in the counter either: when an event arrives in between, its place is given away a second
time.

So the bound holds as long as no grant that goes beyond the pending list finds a posted command
that has not run (`never_overrun`). An event that does find one can always be continued, by nothing
but submissions, to a run that overruns the controller.

## Main definitions

* `Hci.inFlight` — commands posted and not answered yet
* `Hci.granted` — the latest grant
* `Hci.NeverOverrun` — no command is posted beyond the grant
* `Hci.Steady` — the condition on events

## Main results

* `Hci.creditInv_of_run` — credits and commands in flight together stay within the grant
* `Hci.never_overrun` — the bound, and its failure after the first step that is not `Steady`
-/

namespace A1000

namespace Hci

open StepSystem

/-! ### Counting -/

/-- Whether an act posts a command. -/
def Act.isPost : Act → Bool
  | .postTask _ => true
  | _ => false

/-- How many commands the acts post. -/
def posts (acts : List Act) : ℕ := acts.countP Act.isPost

/-- Commands that have been posted and not answered: not sent yet, or sent and unanswered. -/
def inFlight (acts : List Act) : Int := posts acts - (removed acts).length

/-- The grant in force after one more step, `g` having been in force before. -/
def Label.grant (g : Int) : Label → Int
  | .hciEventReceived packet => match packet.answer? with
    | some (_, credits) => credits.toNat
    | none => g
  | _ => g

/-- The number of command packets the controller granted last, 1 before the first event. -/
def granted (ls : List Label) : Int := ls.foldl Label.grant 1

/-- When a step posts a command, the commands in flight at that moment, with it, are within the
grant. -/
def WithinGrant (tr : List (Label × List Act)) (l : Label) (acts : List Act) : Prop :=
  ∀ a₁ w a₂, acts = a₁ ++ .postTask w :: a₂ →
    inFlight (history tr ++ (a₁ ++ [.postTask w])) ≤ granted (tr.map Prod.fst ++ [l])

/-- **Flow control is never overrun.** -/
def NeverOverrun (tr : List (Label × List Act)) : Prop := Always WithinGrant tr

@[simp] theorem posts_nil : posts [] = 0 := rfl

@[simp] theorem posts_append (as bs : List Act) : posts (as ++ bs) = posts as + posts bs :=
  List.countP_append

@[simp] theorem posts_cons (a : Act) (as : List Act) :
    posts (a :: as) = posts as + if a.isPost then 1 else 0 :=
  List.countP_cons

@[simp] theorem posts_postTask (ws : List WaitingCommand) :
    posts (ws.map .postTask) = ws.length := by
  simp [posts, List.countP_map, Function.comp_def, Act.isPost]

@[simp] theorem posts_touch (ws : List WaitingCommand) : posts (ws.map .touch) = 0 := by
  simp [posts, List.countP_map, Function.comp_def, Act.isPost]

@[simp] theorem posts_deliver (packet : BtHdr) (w : WaitingCommand) :
    posts (deliver packet w) = 0 := by
  rw [deliver, giveComplete, giveStatus, intercepted, intercepted]
  cases w.completeCallback <;> cases w.statusCallback <;> cases w.completeFuture <;>
    by_cases hc : packet.eventCode = hciCommandCompleteEvt <;> simp [hc, Act.isPost]

theorem inFlight_append (as bs : List Act) :
    inFlight (as ++ bs) = inFlight as + inFlight bs := by
  simp only [inFlight, posts_append, removed_append, List.length_append]
  omega

@[simp] theorem granted_nil : granted [] = 1 := rfl

@[simp] theorem granted_snoc (ls : List Label) (l : Label) :
    granted (ls ++ [l]) = l.grant (granted ls) := by
  simp [granted]

/-- When commands are posted only after the last removal, no moment of posting has more commands
in flight than the end. -/
theorem inFlight_at_post {pre mid a₁ a₂ : List Act} {w : WaitingCommand} (hpre : posts pre = 0)
    (hmid : removed mid = []) (h : pre ++ mid = a₁ ++ .postTask w :: a₂) :
    inFlight (a₁ ++ [.postTask w]) ≤ inFlight (pre ++ mid) := by
  have hsplit : ∃ b, a₁ = pre ++ b ∧ mid = b ++ .postTask w :: a₂ := by
    rcases List.append_eq_append_iff.mp h with ⟨b, hb, hm⟩ | ⟨b, hb, hm⟩
    · exact ⟨b, hb, hm⟩
    · cases b with
      | nil => exact ⟨[], by simpa using hb.symm, by simpa using hm.symm⟩
      | cons c b =>
        -- the post would lie before all posts
        rw [List.cons_append] at hm
        obtain ⟨rfl, -⟩ := List.cons.inj hm
        rw [hb] at hpre
        simp [Act.isPost] at hpre
  obtain ⟨b, rfl, rfl⟩ := hsplit
  have hrest : removed a₂ = [] := by
    rw [removed_append, List.append_eq_nil_iff] at hmid
    simpa using hmid.2
  have hall : pre ++ (b ++ .postTask w :: a₂) = (pre ++ b ++ [.postTask w]) ++ a₂ := by simp
  rw [hall, inFlight_append _ a₂]
  simp only [inFlight, hrest, List.length_nil]
  omega

/-! ### The condition -/

/-- Whether an event with this opcode takes an entry off the pending list. -/
def answers (s : Layer) (opcode : UInt16) : Bool :=
  s.waiting.any fun w => w.opcode = opcode ∨ vsMismatch opcode w = true

/-- An event that grants more than the commands still waiting after it finds no posted command
that has not run. -/
def Steady (s : Layer) : Label → Prop
  | .hciEventReceived packet => ∀ r ∈ packet.answer?, s.posted = [] ∨
      (r.2.toNat : Int) ≤ s.waiting.length - if answers s r.1 then 1 else 0
  | l => l.Alive

instance (s : Layer) : DecidablePred (Steady s)
  | .hciEventReceived packet => Option.decidableForallMem packet.answer?
  | .transmitCommand .. | .transmitCommandFutured _ | .runTask => isTrue trivial
  | .shutDown | .loopExit | .closeHci | .startUp | .loopStart => isFalse not_false

theorem Steady.alive {s : Layer} {l : Label} (h : Steady s l) : l.Alive := by
  cases l with
  | hciEventReceived packet => trivial
  | _ => exact h

/-! ### One step -/

theorem Matches.answers {s : Layer} {opcode : UInt16} {w : WaitingCommand}
    {older : List WaitingCommand} (h : Matches opcode w older s.waiting) (hw : w ∈ s.waiting) :
    answers s opcode = true := by
  rw [Hci.answers, List.any_eq_true]
  refine ⟨w, hw, ?_⟩
  rcases h with ⟨ho, -⟩ | ⟨-, hv, -⟩
  · simp [ho]
  · simp [hv]

/-- **What an answer does to the credits**, while the loop lives: a part `q₁` of the queue is
posted on top of what was posted before, and what the grant leaves after the waiting commands and
the new posts is kept. -/
theorem Effect.regrant {s s' : Layer} {packet : BtHdr} {opcode : UInt16} {credits : UInt8}
    {acts : List Act} {tasks : List Task} (e : Effect s (.hciEventReceived packet) s' acts)
    (ans : packet.answer? = some (opcode, credits)) (loop : s.messageLoop = some tasks) :
    ∃ q₁ q₂ pre suf, s.commandQueue = q₁ ++ q₂ ∧ s'.commandQueue = q₂ ∧
      s'.messageLoop = some (tasks ++ q₁.map .commandReady) ∧
      (s'.waiting.length : Int) = s.waiting.length - (if answers s opcode then 1 else 0) ∧
      s'.commandCredits = credits.toNat - s'.waiting.length - q₁.length ∧
      (q₁ = [] ∨ 0 ≤ s'.commandCredits) ∧ (q₂ = [] ∨ s'.commandCredits ≤ 0) ∧
      acts = pre ++ (q₁.map .postTask ++ suf) ∧ posts pre = 0 ∧ posts suf = 0 ∧
      removed suf = [] ∧ ((removed pre).length : Int) = if answers s opcode then 1 else 0 := by
  generalize hl : Label.hciEventReceived packet = l at e
  cases e with
  | @answered packet' opcode' credits' w l₁ l₂ ts fresh ans' waiting takes looked r posts =>
    cases hl
    rw [ans', Option.some.injEq, Prod.mk.injEq] at ans
    obtain ⟨rfl, rfl⟩ := ans
    obtain ⟨q₁, q₂, hq, heq, hpos, hrest⟩ := processCommandCredits_spec credits'.toNat
      (s := { s.receive packet with commandsPendingResponse := some (l₁ ++ l₂) }) loop
    rw [← posts] at heq
    have hyes : answers s opcode' = true := takes.answers (by rw [waiting]; simp)
    refine ⟨q₁, q₂, [.handedIn packet.addr] ++ (ts.map .touch ++ [.listRemove w]),
      deliver packet w, hq, ?_⟩
    rw [heq]
    refine ⟨by simp, by simp, ?_, by simp [Layer.waiting], ?_, ?_, by simp, ?_⟩
    · simp only [updateCommandResponseTimer_waiting, hyes, waiting, if_true]
      simp [Layer.waiting]
      omega
    · simpa using hpos
    · simpa using hrest
    · simp [hyes, Act.isPost]
  | @unanswered packet' opcode' credits' ts fresh ans' none looked r posts =>
    cases hl
    rw [ans', Option.some.injEq, Prod.mk.injEq] at ans
    obtain ⟨rfl, rfl⟩ := ans
    obtain ⟨q₁, q₂, hq, heq, hpos, hrest⟩ := processCommandCredits_spec credits'.toNat
      (s := s.receive packet) loop
    rw [← posts] at heq
    have hno : answers s opcode' = false := by
      rw [answers, List.any_eq_false]
      intro w hw
      simp [none w hw]
    refine ⟨q₁, q₂, [.handedIn packet.addr] ++ ts.map .touch, [.free packet.addr], hq, ?_⟩
    rw [heq]
    refine ⟨rfl, rfl, ?_, rfl, hpos, hrest, by simp, ?_⟩
    · simp [hno, Layer.waiting, Layer.receive]
    · simp [hno, Act.isPost]
  | other fresh ans' act =>
    cases hl
    rw [ans'] at ans
    cases ans
  | refused sub => cases hl; cases sub
  | posted sub => cases hl; cases sub
  | queued sub => cases hl; cases sub
  | _ => cases hl

/-- It is enough to look at the end of a step that posts. -/
theorem withinGrant_of {tr : List (Label × List Act)} {l : Label} {pre mid : List Act}
    (hpre : posts pre = 0) (hmid : removed mid = [])
    (hend : posts mid ≠ 0 →
      inFlight (history tr ++ (pre ++ mid)) ≤ granted (tr.map Prod.fst ++ [l])) :
    WithinGrant tr l (pre ++ mid) := by
  intro a₁ w a₂ h
  have hsome : posts mid ≠ 0 := by
    have hcount := congrArg posts h
    simp only [posts_append, posts_cons, hpre, Act.isPost, if_true] at hcount
    omega
  have hle := inFlight_at_post hpre hmid h
  have hend' := hend hsome
  rw [inFlight_append] at hend' ⊢
  omega

/-! ### Every run -/

/-- The invariant of every run with the loop alive: the loop exists, and the commands in flight are
those on it and those on the pending list. -/
structure Flowing (tr : List (Label × List Act)) (s : Layer) : Prop where
  loop : s.messageLoop ≠ none
  count : inFlight (history tr) = s.posted.length + s.waiting.length

/-- The invariant of steady runs: the credits left and the commands in flight together stay within
the grant. Without credits left nothing is claimed: the grant may have been lowered below what is
in flight. -/
structure CreditInv (tr : List (Label × List Act)) (s : Layer) : Prop extends Flowing tr s where
  room : s.commandCredits > 0 →
    s.commandCredits + (s.posted.length + s.waiting.length) ≤ granted (tr.map Prod.fst)

/-- An event that answers no command changes neither credits nor commands, and does not post. -/
theorem Effect.other_or_answer {s s' : Layer} {l : Label} {acts : List Act}
    (e : Effect s l s' acts) {packet : BtHdr} (hl : l = .hciEventReceived packet)
    (ans : packet.answer? = none) :
    s' = s.receive packet ∧ posts acts = 0 ∧ removed acts = [] := by
  cases e with
  | answered fresh ans' waiting takes looked posts => cases hl; rw [ans'] at ans; cases ans
  | unanswered fresh ans' none looked posts => cases hl; rw [ans'] at ans; cases ans
  | other fresh ans' act =>
    cases hl
    exact ⟨rfl, by rcases act with rfl | rfl <;> simp [Act.isPost],
      by rcases act with rfl | rfl <;> simp⟩
  | refused sub => subst hl; cases sub
  | posted sub => subst hl; cases sub
  | queued sub => subst hl; cases sub
  | _ => cases hl

/-- What a submission or a task does to the credits, the commands in flight and the acts. -/
theorem Effect.submit_or_run {s s' : Layer} {l : Label} {acts : List Act} {tasks : List Task}
    (e : Effect s l s' acts) (alive : l.Alive) (hl : ∀ packet, l ≠ .hciEventReceived packet)
    (loop : s.messageLoop = some tasks) :
    s'.messageLoop ≠ none ∧ removed acts = [] ∧
      (posts acts = 0 ∧ s'.commandCredits = s.commandCredits ∧
          s'.posted.length + s'.waiting.length = s.posted.length + s.waiting.length ∨
        posts acts = 1 ∧ s.commandCredits > 0 ∧ s'.commandCredits = s.commandCredits - 1 ∧
          s'.posted.length + s'.waiting.length = s.posted.length + s.waiting.length + 1) := by
  cases e with
  | refused sub fresh credits gone => rw [loop] at gone; cases gone
  | @posted l w tasks' sub fresh credits loop' =>
    refine ⟨by simp, by simp, .inr ⟨by simp [Act.isPost], credits, rfl, ?_⟩⟩
    simp [Layer.posted, Layer.waiting, Layer.accept, loop', Task.command?]
    omega
  | queued sub fresh credits =>
    exact ⟨by simp [Layer.accept, loop], by simp, .inl ⟨by simp [Act.isPost], rfl, rfl⟩⟩
  | sent loop' life =>
    refine ⟨by simp, by simp, .inl ⟨by simp [Act.isPost], by simp, ?_⟩⟩
    simp [Layer.posted, Layer.waiting, loop', Task.command?]
    omega
  | quit loop' =>
    refine ⟨by simp, by simp, .inl ⟨by simp, rfl, ?_⟩⟩
    simp [Layer.posted, Layer.waiting, loop', List.filterMap_cons, Task.command?]
  | answered => exact absurd rfl (hl _)
  | unanswered => exact absurd rfl (hl _)
  | other => exact absurd rfl (hl _)
  | _ => exact alive.elim

/-- **One step** with the loop alive. -/
theorem Flowing.step {tr : List (Label × List Act)} {s s' : Layer} {l : Label} {acts : List Act}
    (h : Flowing tr s) (alive : l.Alive) (e : Effect s l s' acts) :
    Flowing (tr ++ [(l, acts)]) s' := by
  have hcount := h.count
  obtain ⟨tasks, loop⟩ := Option.ne_none_iff_exists'.mp h.loop
  rcases em (∃ packet, l = .hciEventReceived packet) with ⟨packet, rfl⟩ | hl
  · cases ans : packet.answer? with
    | none =>
      obtain ⟨rfl, hp, hr⟩ := e.other_or_answer rfl ans
      refine ⟨h.loop, ?_⟩
      rw [history_snoc, inFlight_append, hcount]
      simp [inFlight, hp, hr, Layer.posted, Layer.waiting, Layer.receive]
    | some r =>
      obtain ⟨q₁, q₂, pre, suf, -, -, hm, hw, -, -, -, rfl, hpre, hsuf, hrsuf, hrpre⟩ :=
        e.regrant ans loop
      refine ⟨by rw [hm]; simp, ?_⟩
      rw [history_snoc, inFlight_append, hcount]
      simp only [inFlight, posts_append, removed_append, hpre, hsuf, hrsuf, posts_postTask,
        reads_postTask, List.length_append, List.length_nil, hw]
      simp only [Layer.posted, loop, hm, Option.getD_some, List.filterMap_append,
        filterMap_command?_map, List.length_append]
      omega
  · obtain ⟨hm, hr, hcase⟩ := e.submit_or_run alive (by simpa using hl) loop
    refine ⟨hm, ?_⟩
    rw [history_snoc, inFlight_append, hcount]
    simp only [inFlight, hr, List.length_nil]
    omega

/-- The commands in flight after a step are those on the loop and those pending. -/
theorem Flowing.inFlight_snoc {tr : List (Label × List Act)} {s s' : Layer} {l : Label}
    {acts : List Act} (h : Flowing tr s) (alive : l.Alive) (e : Effect s l s' acts) :
    inFlight (history tr ++ acts) = s'.posted.length + s'.waiting.length := by
  have hcount := (h.step alive e).count
  rwa [history_snoc] at hcount

/-- **One steady step** keeps the credits and the commands in flight within the grant, and posts
within it. -/
theorem CreditInv.step {tr : List (Label × List Act)} {s s' : Layer} {l : Label} {acts : List Act}
    (h : CreditInv tr s) (steady : Steady s l) (e : Effect s l s' acts) :
    CreditInv (tr ++ [(l, acts)]) s' ∧ WithinGrant tr l acts := by
  have hflow := h.toFlowing.step steady.alive e
  have hsnoc := h.toFlowing.inFlight_snoc steady.alive e
  have hroom := h.room
  obtain ⟨tasks, loop⟩ := Option.ne_none_iff_exists'.mp h.loop
  rcases em (∃ packet, l = .hciEventReceived packet) with ⟨packet, rfl⟩ | hl
  · cases ans : packet.answer? with
    | none =>
      obtain ⟨rfl, hp, hr⟩ := e.other_or_answer rfl ans
      have hgrant : (Label.hciEventReceived packet).grant (granted (tr.map Prod.fst)) =
          granted (tr.map Prod.fst) := by simp [Label.grant, ans]
      refine ⟨⟨hflow, ?_⟩, ?_⟩
      · rw [List.map_append, List.map_singleton, granted_snoc, hgrant]
        exact hroom
      · exact @withinGrant_of _ _ [] _ rfl hr fun hsome => absurd hp hsome
    | some r =>
      obtain ⟨q₁, q₂, pre, suf, -, -, hm, hw, hc, hpos, -, rfl, hpre, hsuf, hrsuf, -⟩ :=
        e.regrant ans loop
      have hgrant : (Label.hciEventReceived packet).grant (granted (tr.map Prod.fst)) =
          r.2.toNat := by simp [Label.grant, ans]
      have hposted : s'.posted.length = s.posted.length + q₁.length := by
        simp only [Layer.posted, hm, loop, Option.getD_some, List.filterMap_append,
          filterMap_command?_map, List.length_append]
      -- a grant that leaves something found nothing posted
      have hnone : 0 ≤ s'.commandCredits → q₁ ≠ [] ∨ 0 < s'.commandCredits →
          s.posted.length = 0 := by
        intro h0 hsome
        rcases steady r ans with hp | hle
        · rw [hp]; rfl
        · rcases hsome with hq | hlt
          · have := List.length_pos_iff.mpr hq
            omega
          · omega
      refine ⟨⟨hflow, fun hcr => ?_⟩, ?_⟩
      · rw [List.map_append, List.map_singleton, granted_snoc, hgrant]
        have := hnone (by omega) (.inr hcr)
        omega
      · refine withinGrant_of hpre (by simp [hrsuf]) fun hsome => ?_
        rw [hsnoc, granted_snoc, hgrant]
        have hq : q₁ ≠ [] := by
          rintro rfl
          simp [hsuf] at hsome
        have h0 := hpos.resolve_left hq
        have := hnone h0 (.inl hq)
        omega
  · have hgrant : l.grant (granted (tr.map Prod.fst)) = granted (tr.map Prod.fst) := by
      cases l <;> first | rfl | exact absurd ⟨_, rfl⟩ hl
    obtain ⟨-, hr, hcase⟩ := e.submit_or_run steady.alive (by simpa using hl) loop
    refine ⟨⟨hflow, fun hcr => ?_⟩, ?_⟩
    · rw [List.map_append, List.map_singleton, granted_snoc, hgrant]
      omega
    · refine @withinGrant_of _ _ [] _ rfl hr fun hsome => ?_
      rw [List.nil_append, hsnoc, granted_snoc, hgrant]
      omega

/-- In steady runs credits and commands in flight together stay within the grant. -/
theorem creditInv_of_run {tr : List (Label × List Act)} {s : Layer}
    (h : RunWhere step Steady started tr s) : CreditInv tr s := by
  refine (h.invariant (P := fun tr s => Sound s ∧ CreditInv tr s) ?_ ?_).2
  · exact ⟨sound_started, ⟨by simp [started], rfl⟩, by simp [started, Layer.posted, Layer.waiting]⟩
  · rintro tr s l t acts ⟨hs, hc⟩ hsteady hstep
    exact ⟨hs.step hstep, (hc.step hsteady (step_cases hs.waiting.addrs_nodup hstep)).1⟩

/-! ### After an event that is not steady -/

/-- The last of the posts a step ends with is beyond the grant if the step ends beyond it. -/
theorem not_withinGrant {tr : List (Label × List Act)} {l : Label} {pre suf : List Act}
    {q : List WaitingCommand} (hq : q ≠ []) (hsuf : posts suf = 0) (hrsuf : removed suf = [])
    (hover : granted (tr.map Prod.fst ++ [l]) <
      inFlight (history tr ++ (pre ++ (q.map .postTask ++ suf)))) :
    ¬ WithinGrant tr l (pre ++ (q.map .postTask ++ suf)) := by
  intro h
  obtain ⟨q', w, rfl⟩ := (List.eq_nil_or_concat q).resolve_left hq
  have hle := h (pre ++ q'.map .postTask) w suf (by simp)
  have hend : inFlight (history tr ++ (pre ++ ((q'.concat w).map .postTask ++ suf))) =
      inFlight (history tr ++ (pre ++ q'.map .postTask ++ [.postTask w])) := by
    simp only [inFlight_append, List.concat_eq_append, List.map_append]
    simp [inFlight, hsuf, hrsuf]
    omega
  omega

/-- With a loop and a credit, one more command can be submitted, and it is posted at once. -/
theorem submit_one {tr : List (Label × List Act)} {s : Layer}
    (hrun : RunWhere step (fun _ => Label.Alive) started tr s) (hflow : Flowing tr s)
    (hc : s.commandCredits > 0) :
    ∃ e t, RunWhere step (fun _ => Label.Alive) started (tr ++ [e]) t ∧ Flowing (tr ++ [e]) t ∧
      t.commandCredits = s.commandCredits - 1 ∧
      inFlight (history (tr ++ [e])) = inFlight (history tr) + 1 ∧
      granted ((tr ++ [e]).map Prod.fst) = granted (tr.map Prod.fst) ∧
      (granted (tr.map Prod.fst) < inFlight (history tr) + 1 → ¬ NeverOverrun (tr ++ [e])) := by
  obtain ⟨tasks, loop⟩ := Option.ne_none_iff_exists'.mp hflow.loop
  obtain ⟨a, fresh⟩ := Infinite.exists_notMem_finset s.buffers.toFinset
  rw [List.mem_toFinset] at fresh
  let command : BtHdr := ⟨a, 0, []⟩
  let w : WaitingCommand := ⟨s.entries, command.commandOpcode, none, none, none, 0, a⟩
  let l : Label := .transmitCommand command none none 0
  let acts : List Act := [.handedIn a, .osiCalloc w] ++ ([w].map .postTask ++ [])
  have hstep : step s l = some
      ({ s.accept w with
          messageLoop := some (tasks ++ [.commandReady w])
          commandCredits := s.commandCredits - 1 }, acts) := by
    simp [l, step, command, fresh, transmitCommand, enqueueCommand, hc, loop, Layer.accept, w, acts]
  have hcount : inFlight acts = 1 := by simp [acts, inFlight, Act.isPost]
  have hgrant : granted (tr.map Prod.fst ++ [l]) = granted (tr.map Prod.fst) := by
    rw [granted_snoc]; rfl
  refine ⟨(l, acts), _, hrun.snoc trivial hstep, hflow.step trivial (effect_of_run hrun hstep), rfl,
    ?_, ?_, fun hover hnever => ?_⟩
  · rw [history_snoc, inFlight_append, hcount]
  · rw [List.map_append, List.map_singleton, hgrant]
  · refine not_withinGrant (List.cons_ne_nil w []) rfl rfl ?_ (always_snoc.mp hnever).2
    rw [hgrant, inFlight_append]
    exact hcount ▸ hover

/-- With a loop, and credits that reach beyond the grant together with the commands in flight,
submissions alone overrun the controller. -/
theorem overrun_of_credits (n : ℕ) :
    ∀ {tr : List (Label × List Act)} {s : Layer},
      RunWhere step (fun _ => Label.Alive) started tr s → Flowing tr s →
      s.commandCredits = n + 1 →
      granted (tr.map Prod.fst) < inFlight (history tr) + s.commandCredits →
      ∃ tr' t, RunWhere step (fun _ => Label.Alive) started (tr ++ tr') t ∧
        ¬ NeverOverrun (tr ++ tr') := by
  induction n with
  | zero =>
    intro tr s hrun hflow hc hover
    obtain ⟨e, t, hrun', -, -, -, -, hbad⟩ := submit_one hrun hflow (by omega)
    exact ⟨[e], t, hrun', hbad (by omega)⟩
  | succ n ih =>
    intro tr s hrun hflow hc hover
    obtain ⟨e, t, hrun', hflow', hcred, hin, hgr, -⟩ := submit_one hrun hflow (by omega)
    obtain ⟨tr', u, hrun'', hbad⟩ := ih hrun' hflow' (by omega) (by omega)
    rw [List.append_assoc] at hrun'' hbad
    exact ⟨[e] ++ tr', u, hrun'', hbad⟩

/-- **An event that is not steady** is followed by an overrun: at once, or after some more
submissions. -/
theorem overrun_of_not_steady {tr : List (Label × List Act)} {s s' : Layer} {l : Label}
    {acts : List Act} (hrun : RunWhere step (fun _ => Label.Alive) started tr s)
    (hflow : Flowing tr s) (alive : l.Alive) (hstep : step s l = some (s', acts))
    (hnot : ¬ Steady s l) :
    ∃ tr' t, RunWhere step (fun _ => Label.Alive) started (tr ++ (l, acts) :: tr') t ∧
      ¬ NeverOverrun (tr ++ (l, acts) :: tr') := by
  have e := effect_of_run hrun hstep
  have hrun' := hrun.snoc alive hstep
  have hflow' := hflow.step alive e
  have hsnoc := hflow.inFlight_snoc alive e
  obtain ⟨tasks, loop⟩ := Option.ne_none_iff_exists'.mp hflow.loop
  cases l with
  | hciEventReceived packet =>
    simp only [Steady, not_forall, not_or, not_le] at hnot
    obtain ⟨r, ans, hposted, hgrants⟩ := hnot
    obtain ⟨q₁, q₂, pre, suf, -, -, hm, hw, hc, hpos, -, rfl, hpre, hsuf, hrsuf, -⟩ :=
      e.regrant ans loop
    have hgrant : granted (tr.map Prod.fst ++ [.hciEventReceived packet]) = r.2.toNat := by
      rw [granted_snoc]
      simp only [Label.grant, Option.mem_def.mp ans]
    have hlen : s'.posted.length = s.posted.length + q₁.length := by
      simp only [Layer.posted, hm, loop, Option.getD_some, List.filterMap_append,
        filterMap_command?_map, List.length_append]
    have hsome : 0 < s.posted.length := List.length_pos_iff.mpr hposted
    by_cases hleft : s'.commandCredits > 0
    · obtain ⟨n, hn⟩ := Int.eq_ofNat_of_zero_le (show 0 ≤ s'.commandCredits - 1 by omega)
      obtain ⟨tr', t, hrun'', hbad⟩ := overrun_of_credits n hrun' hflow' (by omega) (by
        rw [List.map_append, List.map_singleton, hgrant, history_snoc, hsnoc]
        omega)
      rw [List.append_assoc] at hrun'' hbad
      exact ⟨tr', t, hrun'', hbad⟩
    · -- all of the grant is posted at once, on top of what was posted before
      have hq : q₁ ≠ [] := by
        rintro rfl
        simp at hc
        omega
      refine ⟨[], s', hrun', fun hnever => ?_⟩
      refine not_withinGrant hq hsuf hrsuf ?_ (always_snoc.mp hnever).2
      rw [hgrant, hsnoc]
      omega
  | _ => exact absurd alive hnot

/-- **Flow control holds in steady runs.** In every run in which no event grants more than the
commands still waiting after it while a posted command has not run, no command is posted beyond
the grant; and the first event that does can be followed by an overrun. -/
theorem never_overrun {tr : List (Label × List Act)} {s : Layer}
    (h : RunWhere step Steady started tr s) :
    NeverOverrun tr ∧
      ∀ l s' acts, l.Alive → step s l = some (s', acts) → ¬ Steady s l →
        ∃ tr' t, RunWhere step (fun _ => Label.Alive) started (tr ++ (l, acts) :: tr') t ∧
          ¬ NeverOverrun (tr ++ (l, acts) :: tr') := by
  refine ⟨h.always fun hrun hsteady hstep => ?_, fun l s' acts alive hstep hnot => ?_⟩
  · exact ((creditInv_of_run hrun).step hsteady (effect_of_run hrun hstep)).2
  · exact overrun_of_not_steady (h.mono fun s l => Steady.alive) (creditInv_of_run h).toFlowing
      alive hstep hnot

/-- A command without callbacks. -/
def plainCommand (addr : ℕ) : BtHdr := ⟨addr, 0, [0x03, 0x0C, 0x00]⟩

/-- A NOP Command Complete that grants one packet. -/
def grantOne (addr : ℕ) : BtHdr := ⟨addr, 0, [0x0E, 0x03, 0x01, 0x00, 0x00]⟩

/-- A command is submitted and sent, and then a grant arrives. -/
theorem never_overrun_sent :
    let w : WaitingCommand := ⟨0, 0x0C03, none, none, none, 0, 0⟩
    let tr : List (Label × List Act) :=
      [(.transmitCommand (plainCommand 0) none none 0, [.handedIn 0, .osiCalloc w, .postTask w]),
        (.runTask, [.touch w, .listAppend w, .touch w, .fragmentAndDispatch 0]),
        (.hciEventReceived (grantOne 1), [.handedIn 1, .touch w, .touch w, .free 1])]
    let s : Layer := ⟨.up, 0, [], some [], some [w], .armed (some 0), [1, 0], 1, 0⟩
    NeverOverrun tr ∧
      ∀ l s' acts, l.Alive → step s l = some (s', acts) → ¬ Steady s l →
        ∃ tr' t, RunWhere step (fun _ => Label.Alive) started (tr ++ (l, acts) :: tr') t ∧
          ¬ NeverOverrun (tr ++ (l, acts) :: tr') :=
  never_overrun <| run_of_exec <|
    show exec step Steady _ [.transmitCommand (plainCommand 0) none none 0, .runTask,
      .hciEventReceived (grantOne 1)] = some (_, _) from rfl

/-- Two submissions and a grant of one before the first command has been sent: the second is posted
on top of it. -/
theorem never_overrun_not_always :
    ¬ ∀ (tr : List (Label × List Act)) (s : Layer),
      RunWhere step (fun _ => Label.Alive) started tr s → NeverOverrun tr := by
  intro hall
  let w₀ : WaitingCommand := ⟨0, 0x0C03, none, none, none, 0, 0⟩
  let w₁ : WaitingCommand := ⟨1, 0x0C03, none, none, none, 0, 1⟩
  let before : List (Label × List Act) :=
    [(.transmitCommand (plainCommand 0) none none 0, [.handedIn 0, .osiCalloc w₀, .postTask w₀]),
      (.transmitCommand (plainCommand 1) none none 0, [.handedIn 1, .osiCalloc w₁])]
  have hrun : RunWhere step (fun _ => Label.Alive) started
      (before ++ [(.hciEventReceived (grantOne 2), [.handedIn 2, .postTask w₁, .free 2])])
      ⟨.up, 0, [], some [.commandReady w₀, .commandReady w₁], some [], .cancelled, [2, 1, 0], 2,
        0⟩ :=
    run_of_exec <|
      show exec step (fun _ => Label.Alive) _ [.transmitCommand (plainCommand 0) none none 0,
        .transmitCommand (plainCommand 1) none none 0, .hciEventReceived (grantOne 2)] =
          some (_, _) from rfl
  have hle := hall _ _ hrun before _ _ [] rfl [.handedIn 2] w₁ [.free 2] rfl
  revert hle
  decide

end Hci

end A1000

import A1000.Hci.Live

/-!
# Futured commands

The layer in conversation with a controller that answers only commands it was sent, each once, with
Command Complete or Command Status and the command's own opcode, in any order across commands, and
that may send NOP completes at any time. The controller keeps the commands it has not answered; an
answer with an opcode is the answer to the oldest of those with it.

Every command whose opcode is not `HCI_COMMAND_NONE` is then answered by its own event: the pending
list and the controller's list agree on these commands (`InStep`), so the exact pass of
`get_waiting_command` always finds the one that was answered and its second pass is never reached.
`HCI_COMMAND_NONE` is the opcode of a NOP complete. A pending command with that opcode is taken by
the first NOP that comes, answered or not.

## Main definitions

* `Hci.converse` — the layer and its controller, step by step
* `Hci.OwnAnswer` — a step removes and readies only what its own event answers, for a set of opcodes
* `Hci.AnsweredOnce` — the guarantee for a whole conversation, for a set of opcodes

## Main results

* `Hci.inStep_of_run` — the pending list is what the controller has not answered
* `Hci.futured_answered_once` — futures are readied at most once, and exactly by their own answers
-/

namespace A1000

namespace Hci

open StepSystem

/-! ### The conversation -/

/-- Who takes the next step. -/
inductive Party
  /-- A submission, or the message loop. -/
  | host (l : Label)
  /-- The controller answers a command. -/
  | answer (packet : BtHdr)
  /-- The controller sends a NOP complete. -/
  | nop (packet : BtHdr)
  deriving DecidableEq, Repr

/-- The layer, the commands that have been sent, and those among them the controller has not
answered. -/
structure Conversation where
  layer : Layer
  sent : List WaitingCommand
  unanswered : List WaitingCommand
  deriving DecidableEq, Repr

def begun : Conversation := ⟨started, [], []⟩

/-- The steps the host takes by itself. -/
def Label.Host : Label → Prop
  | .transmitCommand .. | .transmitCommandFutured .. | .runTask => True
  | _ => False

instance : DecidablePred Label.Host
  | .transmitCommand .. | .transmitCommandFutured .. | .runTask => isTrue trivial
  | .hciEventReceived _ | .shutDown | .loopExit | .closeHci | .startUp | .loopStart =>
    isFalse not_false

/-- The opcode an event answers. -/
def BtHdr.opcode? (packet : BtHdr) : Option UInt16 := packet.answer?.map Prod.fst

/-- The entries whose commands the acts send. -/
def dispatched (acts : List Act) : List WaitingCommand :=
  acts.filterMap fun
    | .listAppend w => some w
    | _ => none

def bears (opcode : UInt16) (w : WaitingCommand) : Bool := w.opcode = opcode

/-- The layer and its controller. -/
def converse (c : Conversation) : Party → Option (Conversation × List Act)
  | .host l =>
    if l.Host then
      (step c.layer l).map fun r =>
        (⟨r.1, c.sent ++ dispatched r.2, c.unanswered ++ dispatched r.2⟩, r.2)
    else none
  | .answer packet =>
    match packet.opcode? with
    | some opcode =>
      if c.unanswered.any (bears opcode) then
        (step c.layer (.hciEventReceived packet)).map fun r =>
          (⟨r.1, c.sent, c.unanswered.eraseP (bears opcode)⟩, r.2)
      else none
    | none => none
  | .nop packet =>
    if packet.eventCode = hciCommandCompleteEvt ∧ packet.opcode? = some hciCommandNone then
      (step c.layer (.hciEventReceived packet)).map fun r => (⟨r.1, c.sent, c.unanswered⟩, r.2)
    else none

/-- **Answered by its own event**, for the opcodes in `S`: an entry is removed only by the answer
to its opcode; an answer removes exactly the oldest unanswered entry with its opcode, and readies
that entry's future, if it has one, with itself; and whatever is removed has its future readied. -/
structure OwnAnswer (S : UInt16 → Prop) (c : Conversation) (i : Party) (acts : List Act) :
    Prop where
  only : ∀ w ∈ removed acts, S w.opcode →
    ∃ packet, i = .answer packet ∧ packet.opcode? = some w.opcode
  oldest : ∀ packet opcode, i = .answer packet → packet.opcode? = some opcode → S opcode →
    ∃ w, c.unanswered.find? (bears opcode) = some w ∧ removed acts = [w] ∧
      readied acts = w.completeFuture.toList.map fun f => (f, packet.addr)
  woken : ∀ w ∈ removed acts, ∀ f, w.completeFuture = some f →
    ∃ packet, (f, packet) ∈ readied acts
  readied : ∀ r ∈ readied acts, ∃ w ∈ removed acts, w.completeFuture = some r.1

/-! ### What the layer's steps mean for the pending list -/

/-- The host removes nothing, and what it sends goes to the end of the pending list. -/
theorem Effect.host {s s' : Layer} {l : Label} {acts : List Act} (e : Effect s l s' acts)
    (hl : l.Host) :
    removed acts = [] ∧ readied acts = [] ∧ s'.waiting = s.waiting ++ dispatched acts := by
  cases e with
  | refused sub fresh credits gone =>
    exact ⟨by simp, by simp, by simp [dispatched, Layer.waiting, Layer.accept]⟩
  | posted sub fresh credits loop =>
    exact ⟨by simp, by simp, by simp [dispatched, Layer.waiting, Layer.accept]⟩
  | queued sub fresh credits =>
    exact ⟨by simp, by simp, by simp [dispatched, Layer.waiting, Layer.accept]⟩
  | sent loop life => exact ⟨by simp, by simp, by simp [dispatched, Layer.waiting]⟩
  | quit loop => exact ⟨by simp, by simp, by simp [dispatched, Layer.waiting]⟩
  | _ => exact hl.elim

/-- An event that answers an opcode takes the entry that matches it, if there is one. -/
theorem Effect.event {s s' : Layer} {packet : BtHdr} {opcode : UInt16} {acts : List Act}
    (hs : Sound s) (e : Effect s (.hciEventReceived packet) s' acts)
    (ho : packet.opcode? = some opcode) :
    (∃ w l₁ l₂, s.waiting = l₁ ++ w :: l₂ ∧ s'.waiting = l₁ ++ l₂ ∧
        Matches opcode w l₁ s.waiting ∧ removed acts = [w] ∧
        readied acts = w.completeFuture.toList.map fun f => (f, packet.addr)) ∨
      (∀ w ∈ s.waiting, w.opcode ≠ opcode) ∧ s'.waiting = s.waiting ∧ removed acts = [] ∧
        readied acts = [] := by
  obtain ⟨oc, hans, rfl⟩ := Option.map_eq_some_iff.mp ho
  generalize hl : Label.hciEventReceived packet = l at e
  cases e with
  | @answered packet' opcode' credits' w l₁ l₂ ts fresh ans waiting takes looked r posts =>
    cases hl
    rw [ans, Option.some.injEq] at hans
    subst hans
    have frame := creditFrame posts
    obtain ⟨ws, -, hws⟩ := frame.posts
    have hw : w ∈ s.waiting := by rw [waiting]; simp
    refine .inl ⟨w, l₁, l₂, waiting, ?_, takes, by simp [hws], ?_⟩
    · rw [updateCommandResponseTimer_waiting, Layer.waiting, frame.pending]
      rfl
    · simp [hws, readied_deliver packet w (hs.waiting.plain w hw)]
  | @unanswered packet' opcode' credits' ts fresh ans none looked r posts =>
    cases hl
    rw [ans, Option.some.injEq] at hans
    subst hans
    have frame := creditFrame posts
    obtain ⟨ws, -, hws⟩ := frame.posts
    refine .inr ⟨fun w hw => (none w hw).1, ?_, by simp [hws], by simp [hws]⟩
    rw [Layer.waiting, frame.pending]
    rfl
  | other fresh ans act =>
    cases hl
    rw [hans] at ans
    cases ans
  | refused sub => cases hl; cases sub
  | posted sub => cases hl; cases sub
  | queued sub => cases hl; cases sub
  | _ => cases hl

/-! ### Commands with an opcode of their own -/

/-- Every opcode but the one of a NOP complete. -/
def Named (opcode : UInt16) : Prop := opcode ≠ hciCommandNone

instance : DecidablePred Named := fun _ => inferInstanceAs (Decidable (_ ≠ _))

/-- The commands with an opcode of their own. -/
def named (ws : List WaitingCommand) : List WaitingCommand := ws.filter fun w => Named w.opcode

@[simp] theorem named_append (ws vs : List WaitingCommand) :
    named (ws ++ vs) = named ws ++ named vs := List.filter_append ws vs

theorem mem_named {w : WaitingCommand} {ws : List WaitingCommand} :
    w ∈ named ws ↔ w ∈ ws ∧ Named w.opcode := by simp [named]

/-- Looking for an opcode of its own sees only commands with one. -/
theorem find?_named {opcode : UInt16} (ho : Named opcode) (ws : List WaitingCommand) :
    (named ws).find? (bears opcode) = ws.find? (bears opcode) := by
  rw [named, List.find?_filter]
  congr 1
  funext w
  by_cases hw : w.opcode = opcode
  · simp [bears, hw, ho]
  · simp [bears, hw]

theorem named_eraseP {opcode : UInt16} (ho : Named opcode) (ws : List WaitingCommand) :
    named (ws.eraseP (bears opcode)) = (named ws).eraseP (bears opcode) := by
  rw [named, named, List.eraseP_filter]
  congr 2
  funext w
  by_cases hw : w.opcode = opcode
  · simp [bears, hw, ho]
  · simp [bears, hw]

theorem named_eraseP_none (ws : List WaitingCommand) :
    named (ws.eraseP (bears hciCommandNone)) = named ws := by
  rw [named, named]
  induction ws with
  | nil => rfl
  | cons w ws ih =>
    by_cases hw : w.opcode = hciCommandNone
    · simp [bears, hw, Named]
    · simp [bears, hw, List.filter_cons, ← ih]

/-- The second pass takes nothing for the opcode of a NOP complete. -/
theorem vsMismatch_none (w : WaitingCommand) : vsMismatch hciCommandNone w = false := by
  have hno : ¬ hciCommandNone &&& hciGrpVendorSpecific = hciGrpVendorSpecific := by decide
  simp [vsMismatch, hno]

/-- What an event with the opcode of a NOP complete takes has no other opcode. -/
theorem Matches.opcode_none {w : WaitingCommand} {older all : List WaitingCommand}
    (h : Matches hciCommandNone w older all) : ¬ Named w.opcode := by
  rcases h with ⟨ho, -⟩ | ⟨-, hv, -⟩
  · rw [ho]
    exact not_not.mpr rfl
  · rw [vsMismatch_none] at hv
    cases hv

/-- When some entry bears the opcode, the exact pass finds the oldest one. -/
theorem Matches.find? {opcode : UInt16} {w v : WaitingCommand} {l₁ l₂ : List WaitingCommand}
    (h : Matches opcode w l₁ (l₁ ++ w :: l₂)) (hv : v ∈ l₁ ++ w :: l₂) (hvo : v.opcode = opcode) :
    (l₁ ++ w :: l₂).find? (bears opcode) = some w ∧
      (l₁ ++ w :: l₂).eraseP (bears opcode) = l₁ ++ l₂ := by
  rcases h with ⟨ho, hold⟩ | ⟨hno, -⟩
  · have hold' : ∀ u ∈ l₁, ¬ bears opcode u = true := by simpa [bears] using hold
    have hw : bears opcode w = true := by simpa [bears] using ho
    refine ⟨?_, ?_⟩
    · rw [List.find?_append, List.find?_eq_none.mpr hold']
      simp [hw]
    · rw [List.eraseP_append_right _ hold', List.eraseP_cons_of_pos hw]
  · exact absurd hvo (hno v hv)

/-! ### The pending list is what the controller has not answered -/

/-- The invariant of the conversation. -/
structure InStep (tr : List (Party × List Act)) (c : Conversation) : Prop where
  sound : Sound c.layer
  woken : Woken (history tr) c.layer
  pending : named c.layer.waiting = named c.unanswered
  answered : ∀ w ∈ c.sent, Named w.opcode → w ∉ c.unanswered → ∀ f, w.completeFuture = some f →
    ∃ packet, (f, packet) ∈ readied (history tr)

/-- A command with an opcode of its own that the controller has not answered is still pending. -/
theorem InStep.mem_waiting {tr : List (Party × List Act)} {c : Conversation} (h : InStep tr c)
    {w : WaitingCommand} (hw : w ∈ c.unanswered) (hn : Named w.opcode) : w ∈ c.layer.waiting := by
  have hmem : w ∈ named c.layer.waiting := by
    rw [h.pending]
    exact mem_named.mpr ⟨hw, hn⟩
  exact (mem_named.mp hmem).1

/-- **An answer with an opcode of its own** finds the oldest command the controller has not
answered, and takes it off both lists. -/
theorem InStep.answer {tr : List (Party × List Act)} {c : Conversation} (h : InStep tr c)
    {packet : BtHdr} {opcode : UInt16} {s' : Layer} {acts : List Act} (hn : Named opcode)
    (ho : packet.opcode? = some opcode) (hany : c.unanswered.any (bears opcode) = true)
    (e : Effect c.layer (.hciEventReceived packet) s' acts) :
    ∃ w, c.unanswered.find? (bears opcode) = some w ∧ removed acts = [w] ∧
      readied acts = w.completeFuture.toList.map (fun f => (f, packet.addr)) ∧
      named s'.waiting = named (c.unanswered.eraseP (bears opcode)) := by
  obtain ⟨v, hv, hvo⟩ := List.any_eq_true.mp hany
  have hvo' : v.opcode = opcode := by simpa [bears] using hvo
  have hvw : v ∈ c.layer.waiting := h.mem_waiting hv (by rw [hvo']; exact hn)
  rcases e.event h.sound ho with ⟨w, l₁, l₂, hw, hw', hm, hrem, hready⟩ | ⟨hno, -⟩
  · rw [hw] at hm hvw
    obtain ⟨hfind, herase⟩ := hm.find? hvw hvo'
    refine ⟨w, ?_, hrem, hready, ?_⟩
    · rw [← find?_named hn, ← h.pending, find?_named hn, hw, hfind]
    · rw [named_eraseP hn, ← h.pending, ← named_eraseP hn, hw, herase, hw']
  · exact absurd hvo' (hno v hvw)

/-- **An event with the opcode of a NOP complete** takes no command with an opcode of its own. -/
theorem InStep.none {tr : List (Party × List Act)} {c : Conversation} (h : InStep tr c)
    {packet : BtHdr} {s' : Layer} {acts : List Act} (ho : packet.opcode? = some hciCommandNone)
    (e : Effect c.layer (.hciEventReceived packet) s' acts) :
    named s'.waiting = named c.layer.waiting ∧ ∀ w ∈ removed acts, ¬ Named w.opcode := by
  rcases e.event h.sound ho with ⟨w, l₁, l₂, hw, hw', hm, hrem, -⟩ | ⟨-, hw', hrem, -⟩
  · have hno := hm.opcode_none
    refine ⟨?_, by simpa [hrem] using hno⟩
    rw [hw, hw']
    simp [named, hno]
  · exact ⟨by rw [hw'], by simp [hrem]⟩

/-- What a step of the conversation is for the layer. -/
theorem converse_eq_some {c c' : Conversation} {i : Party} {acts : List Act} (hs : Sound c.layer)
    (h : converse c i = some (c', acts)) :
    (∃ l, i = .host l ∧ l.Host ∧ Effect c.layer l c'.layer acts ∧
        c'.sent = c.sent ++ dispatched acts ∧ c'.unanswered = c.unanswered ++ dispatched acts) ∨
      (∃ packet opcode, i = .answer packet ∧ packet.opcode? = some opcode ∧
        c.unanswered.any (bears opcode) = true ∧
        Effect c.layer (.hciEventReceived packet) c'.layer acts ∧ c'.sent = c.sent ∧
        c'.unanswered = c.unanswered.eraseP (bears opcode)) ∨
      ∃ packet, i = .nop packet ∧ packet.opcode? = some hciCommandNone ∧
        Effect c.layer (.hciEventReceived packet) c'.layer acts ∧ c'.sent = c.sent ∧
        c'.unanswered = c.unanswered := by
  have hnd := hs.waiting.addrs_nodup
  cases i with
  | host l =>
    simp only [converse] at h
    split at h
    · rename_i hl
      obtain ⟨⟨t, as⟩, hstep, heq⟩ := Option.map_eq_some_iff.mp h
      cases heq
      exact .inl ⟨l, rfl, hl, step_cases hnd hstep, rfl, rfl⟩
    · cases h
  | answer packet =>
    simp only [converse] at h
    split at h
    · rename_i opcode ho
      split at h
      · rename_i hany
        obtain ⟨⟨t, as⟩, hstep, heq⟩ := Option.map_eq_some_iff.mp h
        cases heq
        exact .inr (.inl ⟨packet, opcode, rfl, ho, hany, step_cases hnd hstep, rfl, rfl⟩)
      · cases h
    · cases h
  | nop packet =>
    simp only [converse] at h
    split at h
    · rename_i hnop
      obtain ⟨⟨t, as⟩, hstep, heq⟩ := Option.map_eq_some_iff.mp h
      cases heq
      exact .inr (.inr ⟨packet, rfl, hnop.2, step_cases hnd hstep, rfl, rfl⟩)
    · cases h

/-- The layer's own invariants, through a step of the conversation. -/
theorem Effect.layer {s s' : Layer} {l : Label} {acts done : List Act} (e : Effect s l s' acts)
    (hs : Sound s) (hw : Woken done s) : Sound s' ∧ Woken (done ++ acts) s' :=
  ⟨⟨((e.distinct hs).perm (e.live hs)).sublist (List.sublist_append_left _ _),
    (e.lifeCycle hs).1, (e.lifeCycle hs).2⟩, hw.step hs e⟩

/-- A command that was on the controller's list and no longer is was the answered one. -/
theorem eq_of_mem_of_notMem_eraseP {opcode : UInt16} {ws : List WaitingCommand}
    {w v : WaitingCommand} (hv : v ∈ ws) (hgone : v ∉ ws.eraseP (bears opcode))
    (hw : ws.find? (bears opcode) = some w) : v = w := by
  obtain ⟨hwo, l₁, l₂, rfl, hold⟩ := List.find?_eq_some_iff_append.mp hw
  have hold' : ∀ u ∈ l₁, ¬ bears opcode u = true := by simpa using hold
  rw [List.eraseP_append_right _ hold', List.eraseP_cons_of_pos hwo] at hgone
  simp only [List.mem_append, List.mem_cons] at hv hgone
  tauto

/-- What an event removes and what it readies belong together. -/
theorem Effect.matched {s s' : Layer} {packet : BtHdr} {opcode : UInt16} {acts : List Act}
    (hs : Sound s) (e : Effect s (.hciEventReceived packet) s' acts)
    (ho : packet.opcode? = some opcode) :
    (∀ w ∈ removed acts, ∀ f, w.completeFuture = some f →
        ∃ packet, (f, packet) ∈ readied acts) ∧
      ∀ r ∈ readied acts, ∃ w ∈ removed acts, w.completeFuture = some r.1 := by
  rcases e.event hs ho with ⟨w, l₁, l₂, -, -, -, hrem, hready⟩ | ⟨-, -, hrem, hready⟩
  · rw [hrem, hready]
    refine ⟨fun v hv f hf => ⟨packet.addr, ?_⟩, fun r hr => ⟨w, by simp, ?_⟩⟩
    · rw [List.mem_singleton.mp hv] at hf
      simp [hf]
    · obtain ⟨f, hf, rfl⟩ := List.mem_map.mp hr
      simpa using hf
  · simp [hrem, hready]

/-- The invariant after a step: the two lists agree again, and whatever the controller answered in
the step has its future readied in the step. -/
theorem InStep.after {tr : List (Party × List Act)} {c c' : Conversation} {i : Party} {l : Label}
    {acts : List Act} (h : InStep tr c) (e : Effect c.layer l c'.layer acts)
    (hpend : named c'.layer.waiting = named c'.unanswered)
    (hgone : ∀ w ∈ c'.sent, Named w.opcode → w ∉ c'.unanswered →
      w ∈ c.sent ∧ w ∉ c.unanswered ∨
        ∀ f, w.completeFuture = some f → ∃ packet, (f, packet) ∈ readied acts) :
    InStep (tr ++ [(i, acts)]) c' := by
  obtain ⟨hs', hw'⟩ := e.layer h.sound h.woken
  refine ⟨hs', by rwa [history_snoc], hpend, fun w hw hn hun f hf => ?_⟩
  rw [history_snoc, readied_append]
  rcases hgone w hw hn hun with ⟨hsent, hdone⟩ | hready
  · obtain ⟨packet, hp⟩ := h.answered w hsent hn hdone f hf
    exact ⟨packet, List.mem_append_left _ hp⟩
  · obtain ⟨packet, hp⟩ := hready f hf
    exact ⟨packet, List.mem_append_right _ hp⟩

/-- The host takes a step: what it sends is pending, and not answered. -/
theorem InStep.step_host {tr : List (Party × List Act)} {c c' : Conversation} {l : Label}
    {acts : List Act} (h : InStep tr c) (hl : l.Host) (e : Effect c.layer l c'.layer acts)
    (hsent : c'.sent = c.sent ++ dispatched acts)
    (hun : c'.unanswered = c.unanswered ++ dispatched acts) :
    InStep (tr ++ [(.host l, acts)]) c' ∧ OwnAnswer Named c (.host l) acts := by
  obtain ⟨hrem, hready, hw⟩ := e.host hl
  refine ⟨h.after e ?_ fun w hmem hn hgone => .inl ?_, ⟨?_, nofun, ?_, ?_⟩⟩
  · rw [hw, hun, named_append, named_append, h.pending]
  · rw [hsent] at hmem
    rw [hun, List.mem_append, not_or] at hgone
    exact ⟨(List.mem_append.mp hmem).resolve_right hgone.2, hgone.1⟩
  all_goals simp [hrem, hready]

/-- The controller answers an opcode of its own. -/
theorem InStep.step_answer {tr : List (Party × List Act)} {c c' : Conversation} {packet : BtHdr}
    {opcode : UInt16} {acts : List Act} (h : InStep tr c) (hn : Named opcode)
    (ho : packet.opcode? = some opcode) (hany : c.unanswered.any (bears opcode) = true)
    (e : Effect c.layer (.hciEventReceived packet) c'.layer acts) (hsent : c'.sent = c.sent)
    (hun : c'.unanswered = c.unanswered.eraseP (bears opcode)) :
    InStep (tr ++ [(.answer packet, acts)]) c' ∧ OwnAnswer Named c (.answer packet) acts := by
  obtain ⟨hwoken, hreadied⟩ := e.matched h.sound ho
  obtain ⟨w, hfind, hrem, hready, hpend⟩ := h.answer hn ho hany e
  have hwo : w.opcode = opcode := by
    simpa [bears] using List.find?_some hfind
  refine ⟨h.after e (by rw [hun, hpend]) fun v hmem _ hgone => ?_, ⟨?_, ?_, hwoken, hreadied⟩⟩
  · rw [hsent] at hmem
    rw [hun] at hgone
    by_cases hv : v ∈ c.unanswered
    · -- the one that is answered in this step
      obtain rfl := eq_of_mem_of_notMem_eraseP hv hgone hfind
      exact .inr fun f hf => ⟨packet.addr, by simp [hready, hf]⟩
    · exact .inl ⟨hmem, hv⟩
  · intro v hv _
    rw [hrem, List.mem_singleton] at hv
    exact ⟨packet, rfl, by rw [ho, hv, hwo]⟩
  · rintro packet' opcode' heq ho' -
    cases heq
    obtain rfl : opcode = opcode' := Option.some.inj (ho.symm.trans ho')
    exact ⟨w, hfind, hrem, hready⟩

/-- The controller sends the opcode of a NOP complete, as an answer or of its own accord. -/
theorem InStep.step_none {tr : List (Party × List Act)} {c c' : Conversation} {i : Party}
    {packet : BtHdr} {acts : List Act} (h : InStep tr c)
    (hi : ∀ packet', i = .answer packet' → packet' = packet)
    (ho : packet.opcode? = some hciCommandNone)
    (e : Effect c.layer (.hciEventReceived packet) c'.layer acts) (hsent : c'.sent = c.sent)
    (hun : named c'.unanswered = named c.unanswered) :
    InStep (tr ++ [(i, acts)]) c' ∧ OwnAnswer Named c i acts := by
  obtain ⟨hwoken, hreadied⟩ := e.matched h.sound ho
  obtain ⟨hpend, hnone⟩ := h.none ho e
  refine ⟨h.after e (by rw [hun, hpend, h.pending]) fun v hmem hvn hgone => .inl ?_,
    ⟨fun v hv hvn => absurd hvn (hnone v hv), ?_, hwoken, hreadied⟩⟩
  · refine ⟨hsent ▸ hmem, fun hv => hgone ?_⟩
    have hv' : v ∈ named c'.unanswered := hun ▸ mem_named.mpr ⟨hv, hvn⟩
    exact (mem_named.mp hv').1
  · intro packet' opcode' heq ho' hn'
    obtain rfl := hi packet' heq
    exact absurd (Option.some.inj (ho'.symm.trans ho)) hn'

/-- **One step of the conversation.** -/
theorem InStep.step {tr : List (Party × List Act)} {c c' : Conversation} {i : Party}
    {acts : List Act} (h : InStep tr c) (hstep : converse c i = some (c', acts)) :
    InStep (tr ++ [(i, acts)]) c' ∧ OwnAnswer Named c i acts := by
  rcases converse_eq_some h.sound hstep with ⟨l, rfl, hl, e, hsent, hun⟩ |
    ⟨packet, opcode, rfl, ho, hany, e, hsent, hun⟩ | ⟨packet, rfl, ho, e, hsent, hun⟩
  · exact h.step_host hl e hsent hun
  · by_cases hn : Named opcode
    · exact h.step_answer hn ho hany e hsent hun
    · obtain rfl : opcode = hciCommandNone := not_not.mp hn
      refine h.step_none (fun _ heq => (Party.answer.inj heq).symm) ho e hsent ?_
      rw [hun, named_eraseP_none]
  · exact h.step_none nofun ho e hsent (congrArg named hun)

/-- In every conversation the pending list is what the controller has not answered. -/
theorem inStep_of_run {tr : List (Party × List Act)} {c : Conversation}
    (h : Run converse begun tr c) : InStep tr c := by
  refine h.invariant (P := InStep) ?_ fun hin _ hstep => (hin.step hstep).1
  exact ⟨sound_started, ⟨by simp, by simp, by simp⟩, rfl, by simp [begun]⟩

/-! ### The guarantee -/

/-- **Futured commands are answered exactly once and by their own event**, for the opcodes in `S`:
no future has been readied twice; the future of a command that has been sent is readied if and only
if the controller has answered the command; and whatever happens next, entries are removed and
futures readied as `OwnAnswer` says. -/
structure AnsweredOnce (S : UInt16 → Prop) (tr : List (Party × List Act)) (c : Conversation) :
    Prop where
  once : ((readied (history tr)).map Prod.fst).Nodup
  whenAnswered : ∀ w ∈ c.sent, S w.opcode → ∀ f, w.completeFuture = some f →
    ((∃ packet, (f, packet) ∈ readied (history tr)) ↔ w ∉ c.unanswered)
  next : ∀ i c' acts, converse c i = some (c', acts) → OwnAnswer S c i acts

/-- Every conversation keeps the guarantee for the commands with an opcode of their own. -/
theorem futured_answered_once {tr : List (Party × List Act)} {c : Conversation}
    (h : Run converse begun tr c) : AnsweredOnce Named tr c := by
  have hin := inStep_of_run h
  refine ⟨hin.woken.nodup, fun w hw hn f hf => ⟨?_, fun hgone => hin.answered w hw hn hgone f hf⟩,
    fun i c' acts hstep => (hin.step hstep).2⟩
  rintro ⟨packet, hp⟩ hun
  have hlive : w ∈ c.layer.live := List.mem_append_right _ (hin.mem_waiting hun hn)
  exact hin.woken.dead _ hp w hlive hf

/-- A futured command answered with an unknown-command status. -/
theorem futured_answered_once_status :
    let command : BtHdr := ⟨0, 0, [0x53, 0xFD, 0x00]⟩
    let status : BtHdr := ⟨1, 0, [0x0F, 0x04, 0x01, 0x01, 0x53, 0xFD]⟩
    let w : WaitingCommand := ⟨0, 0xFD53, some 0, none, none, 0, 0⟩
    AnsweredOnce Named
      [(.host (.transmitCommandFutured command), [.handedIn 0, .osiCalloc w, .postTask w]),
        (.host .runTask, [.touch w, .listAppend w, .touch w, .fragmentAndDispatch 0]),
        (.answer status, [.handedIn 1, .touch w, .listRemove w, .touch w, .futureReady 0 1,
          .touch w, .free 0, .osiFree w])]
      ⟨⟨.up, 1, [], some [], some [], .cancelled, [1, 0], 1, 1⟩, [w], []⟩ :=
  futured_answered_once <| run_of_exec <|
    show exec converse _ _ [.host (.transmitCommandFutured ⟨0, 0, [0x53, 0xFD, 0x00]⟩),
      .host .runTask, .answer ⟨1, 0, [0x0F, 0x04, 0x01, 0x01, 0x53, 0xFD]⟩] = some (_, _) from rfl

/-- A futured command with the opcode of a NOP complete is pending, and a NOP takes it. -/
theorem futured_answered_once_not_none :
    ¬ ∀ (tr : List (Party × List Act)) (c : Conversation),
      Run converse begun tr c → AnsweredOnce (fun _ => True) tr c := by
  intro hall
  let w : WaitingCommand := ⟨0, 0x0000, some 0, none, none, 0, 0⟩
  have hrun : Run converse begun
      [(.host (.transmitCommandFutured ⟨0, 0, [0x00, 0x00, 0x00]⟩),
          [.handedIn 0, .osiCalloc w, .postTask w]),
        (.host .runTask, [.touch w, .listAppend w, .touch w, .fragmentAndDispatch 0])]
      ⟨⟨.up, 0, [], some [], some [w], .armed (some 0), [0], 1, 1⟩, [w], [w]⟩ :=
    run_of_exec <|
      show exec converse _ _ [.host (.transmitCommandFutured ⟨0, 0, [0x00, 0x00, 0x00]⟩),
        .host .runTask] = some (_, _) from rfl
  have hnext := (hall _ _ hrun).next (.nop ⟨1, 0, [0x0E, 0x03, 0x01, 0x00, 0x00]⟩) _ _ rfl
  obtain ⟨packet, hp, -⟩ := hnext.only w (by decide) trivial
  cases hp

end Hci

end A1000

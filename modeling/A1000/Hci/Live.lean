import A1000.Hci.Layer
import Mathlib.Data.List.Nodup
import Mathlib.Data.List.Perm.Basic

/-!
# The commands the layer holds

Between its submission and its answer a command is in one of three places: in the queue, on the
message loop, or on the list of those that await a response. `Layer.live` is all three. This file
says what each step does to them, once and for all; what is proved about the layer later is proved
from these statements and does not look into the steps again.

## Main definitions

* `Hci.BtHdr.answer?` — opcode and credits of an event that answers a command
* `Hci.deliver` — what an answer does with the entry it matched
* `Hci.Matches` — which waiting entry an opcode takes
* `Hci.Sound` — the invariant: entries, buffers and futures of live commands are told apart by
  their numbers

## Main results

* `Hci.getWaitingCommand_eq_some`, `Hci.getWaitingCommand_eq_none` — the search of the pending list
* `Hci.step_cases` — everything a step can do
* `Hci.sound_of_run` — the invariant holds in every run
* `Hci.readied_of_run` — no future is readied twice, and none of a live command is readied yet
-/

namespace A1000

namespace Hci

open StepSystem

/-! ### Searching the pending list -/

theorem scan_eq_none {p : WaitingCommand → Bool} {ws : List WaitingCommand}
    (h : (scan p ws).2 = none) : (∀ w ∈ ws, p w = false) ∧ (scan p ws).1 = ws := by
  induction ws with
  | nil => simp [scan]
  | cons w ws ih =>
    by_cases hp : p w = true
    · simp [scan, hp] at h
    · simp only [scan, hp] at h
      obtain ⟨hall, heq⟩ := ih h
      refine ⟨?_, by simp [scan, hp, heq]⟩
      intro v hv
      rcases List.mem_cons.mp hv with rfl | hv
      · simpa using hp
      · exact hall v hv

theorem scan_eq_some {p : WaitingCommand → Bool} {ws : List WaitingCommand} {w : WaitingCommand}
    (h : (scan p ws).2 = some w) :
    ∃ l₁ l₂, ws = l₁ ++ w :: l₂ ∧ p w = true ∧ (∀ v ∈ l₁, p v = false) ∧
      (scan p ws).1 = l₁ ++ [w] := by
  induction ws with
  | nil => simp [scan] at h
  | cons v ws ih =>
    by_cases hp : p v = true
    · simp only [scan, hp, if_true, Option.some.injEq] at h
      subst h
      exact ⟨[], ws, rfl, hp, by simp, by simp [scan, hp]⟩
    · simp only [scan, hp] at h
      obtain ⟨l₁, l₂, rfl, hw, hl₁, heq⟩ := ih h
      refine ⟨v :: l₁, l₂, rfl, hw, ?_, by simp [scan, hp, heq]⟩
      intro u hu
      rcases List.mem_cons.mp hu with rfl | hu
      · simpa using hp
      · exact hl₁ u hu

/-- The entry an opcode takes: the oldest one with that opcode, and only when there is none the
oldest one that stands for it as a vendor-specific command. -/
def Matches (opcode : UInt16) (w : WaitingCommand) (older all : List WaitingCommand) : Prop :=
  (w.opcode = opcode ∧ ∀ v ∈ older, v.opcode ≠ opcode) ∨
    ((∀ v ∈ all, v.opcode ≠ opcode) ∧ vsMismatch opcode w = true ∧
      ∀ v ∈ older, vsMismatch opcode v = false)

/-- `get_waiting_command` when nothing is found: it looked at every entry and changed nothing. -/
theorem getWaitingCommand_eq_none {opcode : UInt16} {s : Layer}
    (h : (getWaitingCommand opcode s).2.2 = none) :
    (∀ w ∈ s.waiting, w.opcode ≠ opcode ∧ vsMismatch opcode w = false) ∧
      getWaitingCommand opcode s = (s, s.waiting.map .touch ++ s.waiting.map .touch, none) := by
  rw [getWaitingCommand] at h ⊢
  cases h₁ : (scan (fun w => w.opcode = opcode) s.waiting).2 with
  | some w => simp [h₁] at h
  | none =>
    cases h₂ : (scan (vsMismatch opcode) s.waiting).2 with
    | some w => simp [h₁, h₂] at h
    | none =>
      obtain ⟨hall₁, heq₁⟩ := scan_eq_none h₁
      obtain ⟨hall₂, heq₂⟩ := scan_eq_none h₂
      refine ⟨fun w hw => ⟨by simpa using hall₁ w hw, hall₂ w hw⟩, ?_⟩
      simp [h₂, heq₁, heq₂]

/-- The list without the entry that was found. -/
theorem listRemove_eq {w : WaitingCommand} {l₁ l₂ : List WaitingCommand}
    (hnd : ((l₁ ++ w :: l₂).map WaitingCommand.addr).Nodup) :
    listRemove w (l₁ ++ w :: l₂) = l₁ ++ l₂ := by
  have hl₁ : ∀ v ∈ l₁, v.addr ≠ w.addr := by
    intro v hv he
    rw [List.map_append, List.map_cons, List.nodup_append] at hnd
    exact hnd.2.2 v.addr (List.mem_map_of_mem hv) w.addr (by simp) he
  rw [listRemove, List.eraseP_append_right]
  · simp
  · simpa using hl₁

/-- `get_waiting_command` when it finds an entry: exactly that one leaves the list. -/
theorem getWaitingCommand_eq_some {opcode : UInt16} {s : Layer} {w : WaitingCommand}
    (hnd : (s.waiting.map WaitingCommand.addr).Nodup)
    (h : (getWaitingCommand opcode s).2.2 = some w) :
    ∃ l₁ l₂, ∃ ts : List WaitingCommand, s.waiting = l₁ ++ w :: l₂ ∧ Matches opcode w l₁ s.waiting ∧
      (∀ v ∈ ts, v ∈ s.waiting) ∧
      getWaitingCommand opcode s =
        ({ s with commandsPendingResponse := some (l₁ ++ l₂) },
          ts.map .touch ++ [.listRemove w], some w) := by
  have hpend : ∀ l₁ l₂, s.waiting = l₁ ++ w :: l₂ →
      s.commandsPendingResponse.map (listRemove w) = some (l₁ ++ l₂) := by
    intro l₁ l₂ hl
    rw [Layer.waiting] at hl hnd
    cases hp : s.commandsPendingResponse with
    | none => simp [hp] at hl
    | some ws =>
      simp only [hp, Option.getD_some] at hl hnd
      rw [hl] at hnd
      rw [Option.map_some, hl, listRemove_eq hnd]
  rw [getWaitingCommand] at h ⊢
  cases h₁ : (scan (fun w => w.opcode = opcode) s.waiting).2 with
  | some v =>
    simp only [h₁, Option.some.injEq] at h
    subst h
    obtain ⟨l₁, l₂, hl, hv, hl₁, heq⟩ := scan_eq_some h₁
    refine ⟨l₁, l₂, l₁ ++ [v], hl, .inl ⟨by simpa using hv, by simpa using hl₁⟩, ?_, ?_⟩
    · rw [hl]
      intro u hu
      simp only [List.mem_append, List.mem_cons, List.not_mem_nil, or_false] at hu ⊢
      tauto
    · simp [heq, hpend l₁ l₂ hl]
  | none =>
    cases h₂ : (scan (vsMismatch opcode) s.waiting).2 with
    | none => simp [h₁, h₂] at h
    | some v =>
      simp only [h₁, h₂, Option.some.injEq] at h
      subst h
      obtain ⟨hall, heq₁⟩ := scan_eq_none h₁
      obtain ⟨l₁, l₂, hl, hv, hl₁, heq⟩ := scan_eq_some h₂
      refine ⟨l₁, l₂, s.waiting ++ (l₁ ++ [v]), hl, .inr ⟨by simpa using hall, hv, hl₁⟩, ?_, ?_⟩
      · rw [hl]
        intro u hu
        simp only [List.mem_append, List.mem_cons, List.not_mem_nil, or_false] at hu ⊢
        tauto
      · simp [h₂, heq₁, heq, hpend l₁ l₂ hl]

/-! ### Credits -/

/-- The loop of `process_command_credits` posts from the front while credits last. -/
theorem postQueued_spec (credits : Int) (ws : List WaitingCommand) :
    ws = (postQueued credits ws).2.1 ++ (postQueued credits ws).2.2 ∧
      (postQueued credits ws).1 = credits - (postQueued credits ws).2.1.length ∧
      ((postQueued credits ws).2.1 = [] ∨ 0 ≤ (postQueued credits ws).1) ∧
      ((postQueued credits ws).2.2 = [] ∨ (postQueued credits ws).1 ≤ 0) := by
  induction ws generalizing credits with
  | nil => simp [postQueued]
  | cons w ws ih =>
    by_cases hc : credits > 0
    · obtain ⟨happ, hleft, hpos, hrest⟩ := ih (credits - 1)
      simp only [postQueued, hc, if_true, List.cons_append]
      refine ⟨by rw [← happ], by rw [hleft]; simp; omega, .inr ?_, hrest⟩
      rcases hpos with h0 | h0
      · rw [hleft, h0]; simp; omega
      · exact h0
    · simp only [postQueued, hc, if_false]
      exact ⟨rfl, by simp, .inl trivial, .inr (by omega)⟩

/-- **`process_command_credits`**, with a loop: a part `q₁` of the queue is posted, as many as the
credits not taken up by waiting commands allow, and the rest of the credits is kept. -/
theorem processCommandCredits_spec (credits : Int) {s : Layer} {tasks : List Task}
    (hloop : s.messageLoop = some tasks) :
    ∃ q₁ q₂, s.commandQueue = q₁ ++ q₂ ∧
      processCommandCredits credits s =
        ({ s with
            commandCredits := credits - s.waiting.length - q₁.length
            commandQueue := q₂
            messageLoop := some (tasks ++ q₁.map .commandReady) }, q₁.map .postTask) ∧
      (q₁ = [] ∨ 0 ≤ credits - s.waiting.length - q₁.length) ∧
      (q₂ = [] ∨ credits - s.waiting.length - q₁.length ≤ 0) := by
  obtain ⟨happ, hleft, hpos, hrest⟩ := postQueued_spec (credits - s.waiting.length) s.commandQueue
  refine ⟨_, _, happ, ?_, hleft ▸ hpos, hleft ▸ hrest⟩
  simp [processCommandCredits, hloop, getNumWaitingCommands, hleft]

/-- `process_command_credits` after the loop is gone. -/
theorem processCommandCredits_of_none (credits : Int) {s : Layer} (hloop : s.messageLoop = none) :
    processCommandCredits credits s = (s, []) := by
  simp [processCommandCredits, hloop]

/-! ### What an event does -/

/-- Opcode and credits of an event that answers a command. -/
def BtHdr.answer? (packet : BtHdr) : Option (UInt16 × UInt8) :=
  if packet.eventCode = hciCommandCompleteEvt then
    some (packet.completeFields.2, packet.completeFields.1)
  else if packet.eventCode = hciCommandStatusEvt then
    some (packet.statusFields.2.2, packet.statusFields.2.1)
  else none

/-- What an answer does with the entry it matched, after the credits have been processed. -/
def deliver (packet : BtHdr) (w : WaitingCommand) : List Act :=
  if packet.eventCode = hciCommandCompleteEvt then
    [.touch w] ++ giveComplete packet.addr w ++ [.touch w] ++
      intercepted hciCommandCompleteEvt false packet.addr (some w)
  else
    [.touch w] ++ (giveStatus packet.statusFields.1 packet.addr w).1 ++ [.touch w] ++
      intercepted hciCommandStatusEvt (giveStatus packet.statusFields.1 packet.addr w).2
        packet.addr (some w)

theorem hciEventReceived_of_answer {packet : BtHdr} {opcode : UInt16} {credits : UInt8}
    (h : packet.answer? = some (opcode, credits)) (s : Layer) :
    hciEventReceived packet s =
      let r₁ := getWaitingCommand opcode { s with buffers := packet.addr :: s.buffers }
      let r₂ := processCommandCredits credits.toNat r₁.1
      match r₁.2.2 with
      | some w => (updateCommandResponseTimer r₂.1,
          [.handedIn packet.addr] ++ (r₁.2.1 ++ r₂.2 ++ deliver packet w))
      | none => (r₂.1, [.handedIn packet.addr] ++ (r₁.2.1 ++ r₂.2 ++ [.free packet.addr])) := by
  rw [BtHdr.answer?] at h
  rw [hciEventReceived, filterIncomingEvent]
  split at h
  · rename_i hcode
    simp only [Option.some.injEq, Prod.mk.injEq] at h
    obtain ⟨rfl, rfl⟩ := h
    simp only [if_pos hcode, deliver]
    cases (getWaitingCommand packet.completeFields.2
      { s with buffers := packet.addr :: s.buffers }).2.2 <;> simp [intercepted]
  · split at h
    · rename_i hno hcode
      simp only [Option.some.injEq, Prod.mk.injEq] at h
      obtain ⟨rfl, rfl⟩ := h
      simp only [if_neg hno, if_pos hcode, deliver]
      cases (getWaitingCommand packet.statusFields.2.2
        { s with buffers := packet.addr :: s.buffers }).2.2 <;> simp [intercepted]
    · cases h

theorem hciEventReceived_of_other {packet : BtHdr} (h : packet.answer? = none) (s : Layer) :
    ∃ a, (a = .free packet.addr ∨ a = .sendDataUpwards packet.addr) ∧
      hciEventReceived packet s =
        ({ s with buffers := packet.addr :: s.buffers }, [.handedIn packet.addr, a]) := by
  rw [BtHdr.answer?] at h
  rw [hciEventReceived, filterIncomingEvent]
  split at h
  · cases h
  · split at h
    · cases h
    · rename_i hcc hcs
      simp only [hcc, hcs, if_false]
      split
      · exact ⟨_, .inl rfl, by simp⟩
      · exact ⟨_, .inr rfl, by simp⟩

/-! ### The timer leaves everything else alone -/

section Timer

variable (s : Layer)

theorem updateCommandResponseTimer_eq :
    ∃ t, updateCommandResponseTimer s = { s with commandResponseTimer := t } := by
  rw [updateCommandResponseTimer]
  split
  · exact ⟨_, rfl⟩
  · split <;> exact ⟨_, rfl⟩

@[simp] theorem updateCommandResponseTimer_life :
    (updateCommandResponseTimer s).life = s.life := by
  obtain ⟨t, h⟩ := updateCommandResponseTimer_eq s
  rw [h]

@[simp] theorem updateCommandResponseTimer_commandCredits :
    (updateCommandResponseTimer s).commandCredits = s.commandCredits := by
  obtain ⟨t, h⟩ := updateCommandResponseTimer_eq s
  rw [h]

@[simp] theorem updateCommandResponseTimer_commandQueue :
    (updateCommandResponseTimer s).commandQueue = s.commandQueue := by
  obtain ⟨t, h⟩ := updateCommandResponseTimer_eq s
  rw [h]

@[simp] theorem updateCommandResponseTimer_messageLoop :
    (updateCommandResponseTimer s).messageLoop = s.messageLoop := by
  obtain ⟨t, h⟩ := updateCommandResponseTimer_eq s
  rw [h]

@[simp] theorem updateCommandResponseTimer_commandsPendingResponse :
    (updateCommandResponseTimer s).commandsPendingResponse = s.commandsPendingResponse := by
  obtain ⟨t, h⟩ := updateCommandResponseTimer_eq s
  rw [h]

@[simp] theorem updateCommandResponseTimer_waiting :
    (updateCommandResponseTimer s).waiting = s.waiting := by
  simp [Layer.waiting]

@[simp] theorem updateCommandResponseTimer_posted :
    (updateCommandResponseTimer s).posted = s.posted := by
  simp [Layer.posted]

@[simp] theorem updateCommandResponseTimer_buffers :
    (updateCommandResponseTimer s).buffers = s.buffers := by
  obtain ⟨t, h⟩ := updateCommandResponseTimer_eq s
  rw [h]

@[simp] theorem updateCommandResponseTimer_entries :
    (updateCommandResponseTimer s).entries = s.entries := by
  obtain ⟨t, h⟩ := updateCommandResponseTimer_eq s
  rw [h]

@[simp] theorem updateCommandResponseTimer_futures :
    (updateCommandResponseTimer s).futures = s.futures := by
  obtain ⟨t, h⟩ := updateCommandResponseTimer_eq s
  rw [h]

@[simp] theorem updateCommandResponseTimer_live :
    (updateCommandResponseTimer s).live = s.live := by
  simp [Layer.live]

end Timer

/-! ### Everything a step can do -/

/-- The wait entry a submission makes. -/
def Label.entry? (s : Layer) : Label → Option WaitingCommand
  | .transmitCommand command completeCallback statusCallback context =>
    some ⟨s.entries, command.commandOpcode, none, completeCallback, statusCallback, context,
      command.addr⟩
  | .transmitCommandFutured command =>
    some ⟨s.entries, command.commandOpcode, some s.futures, none, none, 0, command.addr⟩
  | _ => none

/-- The layer with the numbers of a new entry taken. -/
def Layer.accept (s : Layer) (w : WaitingCommand) : Layer :=
  { s with
    buffers := w.command :: s.buffers
    entries := s.entries + 1
    futures := s.futures + w.completeFuture.toList.length }

/-- The layer with a received packet's buffer noted. -/
def Layer.receive (s : Layer) (packet : BtHdr) : Layer :=
  { s with buffers := packet.addr :: s.buffers }

/-- What a step does, by cases. A submission is refused, posted or queued; a task sends its command
or ends the loop; an event answers a command, answers none, or is no answer. -/
inductive Effect (s : Layer) : Label → Layer → List Act → Prop
  | refused {l : Label} {w : WaitingCommand} (sub : l.entry? s = some w)
      (fresh : w.command ∉ s.buffers) (credits : s.commandCredits > 0)
      (gone : s.messageLoop = none) :
      Effect s l (s.accept w)
        [.handedIn w.command, .osiCalloc w, .touch w, .free w.command, .osiFree w]
  | posted {l : Label} {w : WaitingCommand} {tasks : List Task} (sub : l.entry? s = some w)
      (fresh : w.command ∉ s.buffers) (credits : s.commandCredits > 0)
      (loop : s.messageLoop = some tasks) :
      Effect s l
        { s.accept w with
          messageLoop := some (tasks ++ [.commandReady w])
          commandCredits := s.commandCredits - 1 }
        [.handedIn w.command, .osiCalloc w, .postTask w]
  | queued {l : Label} {w : WaitingCommand} (sub : l.entry? s = some w)
      (fresh : w.command ∉ s.buffers) (credits : ¬ s.commandCredits > 0) :
      Effect s l { s.accept w with commandQueue := s.commandQueue ++ [w] }
        [.handedIn w.command, .osiCalloc w]
  | sent {w : WaitingCommand} {tasks : List Task}
      (loop : s.messageLoop = some (.commandReady w :: tasks))
      (life : s.life = .up ∨ s.life = .quitPosted) :
      Effect s .runTask
        (updateCommandResponseTimer
          { s with
            messageLoop := some tasks
            commandsPendingResponse := some (s.waiting ++ [w]) })
        [.touch w, .listAppend w, .touch w, .fragmentAndDispatch w.command]
  | quit {tasks : List Task} (loop : s.messageLoop = some (.quit :: tasks)) :
      Effect s .runTask { s with messageLoop := some tasks, life := .loopDone } []
  | answered {packet : BtHdr} {opcode : UInt16} {credits : UInt8} {w : WaitingCommand}
      {l₁ l₂ ts : List WaitingCommand} (fresh : packet.addr ∉ s.buffers)
      (ans : packet.answer? = some (opcode, credits)) (waiting : s.waiting = l₁ ++ w :: l₂)
      (takes : Matches opcode w l₁ s.waiting) (looked : ∀ v ∈ ts, v ∈ s.waiting)
      {r : Layer × List Act}
      (posts : r = processCommandCredits credits.toNat
        { s.receive packet with commandsPendingResponse := some (l₁ ++ l₂) }) :
      Effect s (.hciEventReceived packet) (updateCommandResponseTimer r.1)
        ([.handedIn packet.addr] ++
          (ts.map .touch ++ [.listRemove w] ++ r.2 ++ deliver packet w))
  | unanswered {packet : BtHdr} {opcode : UInt16} {credits : UInt8} {ts : List WaitingCommand}
      (fresh : packet.addr ∉ s.buffers) (ans : packet.answer? = some (opcode, credits))
      (none : ∀ w ∈ s.waiting, w.opcode ≠ opcode ∧ vsMismatch opcode w = false)
      (looked : ∀ v ∈ ts, v ∈ s.waiting) {r : Layer × List Act}
      (posts : r = processCommandCredits credits.toNat (s.receive packet)) :
      Effect s (.hciEventReceived packet) r.1
        ([.handedIn packet.addr] ++ (ts.map .touch ++ r.2 ++ [.free packet.addr]))
  | other {packet : BtHdr} {a : Act} (fresh : packet.addr ∉ s.buffers)
      (ans : packet.answer? = none)
      (act : a = .free packet.addr ∨ a = .sendDataUpwards packet.addr) :
      Effect s (.hciEventReceived packet) (s.receive packet) [.handedIn packet.addr, a]
  | shutDown (life : s.life = .up) :
      Effect s .shutDown
        { s with
          life := .quitPosted
          commandResponseTimer := .freed
          messageLoop := s.messageLoop.map (· ++ [.quit]) } []
  | loopExit (life : s.life = .loopDone) :
      Effect s .loopExit { s with life := .loopGone, messageLoop := none } (s.posted.map .forget)
  | closeHci (life : s.life = .loopGone) :
      Effect s .closeHci { s with life := .off, commandsPendingResponse := none }
        (s.waiting.map .forget)
  | startUp (life : s.life = .off) :
      Effect s .startUp
        { s with
          life := .starting
          commandCredits := 1
          commandResponseTimer := .cancelled
          commandsPendingResponse := some [] } []
  | loopStart (life : s.life = .starting) :
      Effect s .loopStart { s with life := .up, messageLoop := some [] } []

/-- `enqueue_command`, by cases. -/
theorem effect_enqueueCommand {s : Layer} {l : Label} {w : WaitingCommand}
    (sub : l.entry? s = some w) (fresh : w.command ∉ s.buffers) :
    Effect s l (enqueueCommand w (s.accept w)).1
      ([.handedIn w.command, .osiCalloc w] ++ (enqueueCommand w (s.accept w)).2) := by
  rw [enqueueCommand]
  by_cases hc : s.commandCredits > 0
  · cases hl : s.messageLoop with
    | none => simpa [Layer.accept, hc, hl] using Effect.refused sub fresh hc hl
    | some tasks => simpa [Layer.accept, hc, hl] using Effect.posted sub fresh hc hl
  · simpa [Layer.accept, hc] using Effect.queued sub fresh hc

/-- `hci_event_received`, by cases. -/
theorem effect_hciEventReceived {s : Layer} {packet : BtHdr} (fresh : packet.addr ∉ s.buffers)
    (hnd : (s.waiting.map WaitingCommand.addr).Nodup) :
    Effect s (.hciEventReceived packet) (hciEventReceived packet s).1
      (hciEventReceived packet s).2 := by
  cases ha : packet.answer? with
  | none =>
    obtain ⟨a, hact, heq⟩ := hciEventReceived_of_other ha s
    rw [heq]
    exact .other fresh ha hact
  | some oc =>
    obtain ⟨opcode, credits⟩ := oc
    rw [hciEventReceived_of_answer ha]
    cases hg : (getWaitingCommand opcode (s.receive packet)).2.2 with
    | none =>
      obtain ⟨hno, heq⟩ := getWaitingCommand_eq_none hg
      rw [← Layer.receive, heq]
      have looked : ∀ v ∈ s.waiting ++ s.waiting, v ∈ s.waiting := by simp
      simpa [Layer.waiting, Layer.receive] using Effect.unanswered fresh ha hno looked rfl
    | some w =>
      obtain ⟨l₁, l₂, ts, hw, htakes, hlooked, heq⟩ :=
        getWaitingCommand_eq_some (s := s.receive packet) hnd hg
      rw [← Layer.receive, heq]
      exact Effect.answered fresh ha hw htakes hlooked rfl

/-- **Everything a step can do.** -/
theorem step_cases {s s' : Layer} {l : Label} {acts : List Act}
    (hnd : (s.waiting.map WaitingCommand.addr).Nodup) (h : step s l = some (s', acts)) :
    Effect s l s' acts := by
  cases l with
  | transmitCommand command cb scb context =>
    simp only [step] at h
    split at h
    · cases h
    · rename_i fresh
      cases h
      exact effect_enqueueCommand (l := .transmitCommand command cb scb context) rfl fresh
  | transmitCommandFutured command =>
    simp only [step] at h
    split at h
    · cases h
    · rename_i fresh
      cases h
      exact effect_enqueueCommand (l := .transmitCommandFutured command) rfl fresh
  | runTask =>
    simp only [step] at h
    split at h
    · rename_i life
      split at h
      · rename_i w tasks loop
        cases h
        exact .sent loop life
      · rename_i tasks loop
        cases h
        exact .quit loop
      · cases h
    · cases h
  | hciEventReceived packet =>
    simp only [step] at h
    split at h
    · cases h
    · rename_i hno
      rw [not_or] at hno
      cases h
      exact effect_hciEventReceived hno.1 hnd
  | shutDown =>
    simp only [step] at h
    split at h
    · cases h; exact .shutDown (by assumption)
    · cases h
  | loopExit =>
    simp only [step] at h
    split at h
    · cases h; exact .loopExit (by assumption)
    · cases h
  | closeHci =>
    simp only [step] at h
    split at h
    · cases h; exact .closeHci (by assumption)
    · cases h
  | startUp =>
    simp only [step] at h
    split at h
    · cases h; exact .startUp (by assumption)
    · cases h
  | loopStart =>
    simp only [step] at h
    split at h
    · cases h; exact .loopStart (by assumption)
    · cases h

/-! ### Reading the acts -/

/-- The entry an act allocates. -/
@[simp] def Act.made? : Act → Option WaitingCommand
  | .osiCalloc w => some w
  | _ => none

/-- The entry an act takes off the list of pending commands. -/
@[simp] def Act.removed? : Act → Option WaitingCommand
  | .listRemove w => some w
  | _ => none

/-- The entry an act frees, or loses the last reference to. -/
@[simp] def Act.destroyed? : Act → Option WaitingCommand
  | .osiFree w => some w
  | .forget w => some w
  | _ => none

/-- The future an act readies, and the packet it readies it with. -/
@[simp] def Act.readied? : Act → Option (ℕ × ℕ)
  | .futureReady f p => some (f, p)
  | _ => none

def made (acts : List Act) : List WaitingCommand := acts.filterMap Act.made?

def removed (acts : List Act) : List WaitingCommand := acts.filterMap Act.removed?

def destroyed (acts : List Act) : List WaitingCommand := acts.filterMap Act.destroyed?

def readied (acts : List Act) : List (ℕ × ℕ) := acts.filterMap Act.readied?

section Append

variable (as bs : List Act) (ws : List WaitingCommand)

@[simp] theorem made_append : made (as ++ bs) = made as ++ made bs := List.filterMap_append

@[simp] theorem removed_append : removed (as ++ bs) = removed as ++ removed bs :=
  List.filterMap_append

@[simp] theorem destroyed_append : destroyed (as ++ bs) = destroyed as ++ destroyed bs :=
  List.filterMap_append

@[simp] theorem readied_append : readied (as ++ bs) = readied as ++ readied bs :=
  List.filterMap_append

@[simp] theorem reads_nil : made [] = [] ∧ removed [] = [] ∧ destroyed [] = [] ∧ readied [] = [] :=
  ⟨rfl, rfl, rfl, rfl⟩

@[simp] theorem reads_cons (a : Act) :
    made (a :: as) = a.made?.toList ++ made as ∧
      removed (a :: as) = a.removed?.toList ++ removed as ∧
      destroyed (a :: as) = a.destroyed?.toList ++ destroyed as ∧
      readied (a :: as) = a.readied?.toList ++ readied as := by
  rw [made, removed, destroyed, readied]
  simp only [List.filterMap_cons]
  cases a.made? <;> cases a.removed? <;> cases a.destroyed? <;> cases a.readied? <;>
    exact ⟨rfl, rfl, rfl, rfl⟩

/-- Looking at entries and posting them is in none of the four. -/
@[simp] theorem reads_touch (ts : List WaitingCommand) :
    made (ts.map .touch) = [] ∧ removed (ts.map .touch) = [] ∧ destroyed (ts.map .touch) = [] ∧
      readied (ts.map .touch) = [] := by
  simp [made, removed, destroyed, readied, List.filterMap_map]

@[simp] theorem reads_postTask (ws : List WaitingCommand) :
    made (ws.map .postTask) = [] ∧ removed (ws.map .postTask) = [] ∧
      destroyed (ws.map .postTask) = [] ∧ readied (ws.map .postTask) = [] := by
  simp [made, removed, destroyed, readied, List.filterMap_map]

end Append

/-- A futured command has no callbacks. -/
def WaitingCommand.Plain (w : WaitingCommand) : Prop :=
  w.completeFuture.isSome → w.completeCallback = none ∧ w.statusCallback = none

@[simp] theorem hciCommandCompleteEvt_ne_status : hciCommandCompleteEvt ≠ hciCommandStatusEvt := by
  decide

@[simp] theorem hciCommandStatusEvt_ne_complete : hciCommandStatusEvt ≠ hciCommandCompleteEvt := by
  decide

section Deliver

variable (packet : BtHdr) (w : WaitingCommand)

@[simp] theorem made_deliver : made (deliver packet w) = [] := by
  rw [deliver, giveComplete, giveStatus, intercepted, intercepted]
  cases w.completeCallback <;> cases w.statusCallback <;> cases w.completeFuture <;>
    by_cases hc : packet.eventCode = hciCommandCompleteEvt <;> simp [hc]

@[simp] theorem removed_deliver : removed (deliver packet w) = [] := by
  rw [deliver, giveComplete, giveStatus, intercepted, intercepted]
  cases w.completeCallback <;> cases w.statusCallback <;> cases w.completeFuture <;>
    by_cases hc : packet.eventCode = hciCommandCompleteEvt <;> simp [hc]

@[simp] theorem destroyed_deliver : destroyed (deliver packet w) = [w] := by
  rw [deliver, giveComplete, giveStatus, intercepted, intercepted]
  cases w.completeCallback <;> cases w.statusCallback <;> cases w.completeFuture <;>
    by_cases hc : packet.eventCode = hciCommandCompleteEvt <;> simp [hc]

/-- Whatever kind the event is, the future of the entry is readied with it. -/
theorem readied_deliver (h : w.Plain) :
    readied (deliver packet w) = w.completeFuture.toList.map fun f => (f, packet.addr) := by
  rw [deliver, giveComplete, giveStatus, intercepted, intercepted]
  cases hf : w.completeFuture with
  | none =>
    cases w.completeCallback <;> cases w.statusCallback <;>
      by_cases hc : packet.eventCode = hciCommandCompleteEvt <;> simp [hc]
  | some f =>
    obtain ⟨hcb, hscb⟩ := h (by rw [hf]; rfl)
    rw [hcb, hscb]
    by_cases hc : packet.eventCode = hciCommandCompleteEvt <;> simp [hc]

end Deliver

/-! ### The invariant -/

/-- Commands that are told apart by their numbers, all of which have been given out. -/
structure Distinct (ws : List WaitingCommand) (buffers : List ℕ) (entries futures : ℕ) : Prop where
  addrs_nodup : (ws.map WaitingCommand.addr).Nodup
  addr_lt : ∀ w ∈ ws, w.addr < entries
  commands_nodup : (ws.map WaitingCommand.command).Nodup
  command_mem : ∀ w ∈ ws, w.command ∈ buffers
  futures_nodup : (ws.filterMap WaitingCommand.completeFuture).Nodup
  future_lt : ∀ w ∈ ws, ∀ f, w.completeFuture = some f → f < futures
  plain : ∀ w ∈ ws, w.Plain

theorem Distinct.perm {ws vs : List WaitingCommand} {buffers : List ℕ} {entries futures : ℕ}
    (h : Distinct ws buffers entries futures) (hp : vs.Perm ws) :
    Distinct vs buffers entries futures where
  addrs_nodup := (hp.map _).nodup_iff.mpr h.addrs_nodup
  addr_lt w hw := h.addr_lt w (hp.mem_iff.mp hw)
  commands_nodup := (hp.map _).nodup_iff.mpr h.commands_nodup
  command_mem w hw := h.command_mem w (hp.mem_iff.mp hw)
  futures_nodup := (hp.filterMap _).nodup_iff.mpr h.futures_nodup
  future_lt w hw := h.future_lt w (hp.mem_iff.mp hw)
  plain w hw := h.plain w (hp.mem_iff.mp hw)

theorem Distinct.sublist {ws vs : List WaitingCommand} {buffers : List ℕ} {entries futures : ℕ}
    (h : Distinct ws buffers entries futures) (hp : vs.Sublist ws) :
    Distinct vs buffers entries futures where
  addrs_nodup := h.addrs_nodup.sublist (hp.map _)
  addr_lt w hw := h.addr_lt w (hp.subset hw)
  commands_nodup := h.commands_nodup.sublist (hp.map _)
  command_mem w hw := h.command_mem w (hp.subset hw)
  futures_nodup := h.futures_nodup.sublist (hp.filterMap _)
  future_lt w hw := h.future_lt w (hp.subset hw)
  plain w hw := h.plain w (hp.subset hw)

/-- Giving out more numbers. -/
theorem Distinct.mono {ws : List WaitingCommand} {buffers buffers' : List ℕ}
    {entries entries' futures futures' : ℕ} (h : Distinct ws buffers entries futures)
    (hb : buffers ⊆ buffers') (he : entries ≤ entries') (hf : futures ≤ futures') :
    Distinct ws buffers' entries' futures' where
  addrs_nodup := h.addrs_nodup
  addr_lt w hw := Nat.lt_of_lt_of_le (h.addr_lt w hw) he
  commands_nodup := h.commands_nodup
  command_mem w hw := hb (h.command_mem w hw)
  futures_nodup := h.futures_nodup
  future_lt w hw f hwf := Nat.lt_of_lt_of_le (h.future_lt w hw f hwf) hf
  plain := h.plain

/-- What a submission makes is new in every respect. -/
theorem entry?_eq_some {s : Layer} {l : Label} {w : WaitingCommand} (h : l.entry? s = some w) :
    w.addr = s.entries ∧ (w.completeFuture = none ∨ w.completeFuture = some s.futures) ∧
      w.Plain := by
  cases l <;> simp only [Label.entry?, Option.some.injEq, reduceCtorEq] at h
  all_goals subst h; simp [WaitingCommand.Plain]

/-- One more command, with new numbers. -/
theorem Distinct.accept {ws : List WaitingCommand} {s : Layer} {l : Label} {w : WaitingCommand}
    (h : Distinct ws s.buffers s.entries s.futures) (sub : l.entry? s = some w)
    (fresh : w.command ∉ s.buffers) :
    Distinct (ws ++ [w]) (s.accept w).buffers (s.accept w).entries (s.accept w).futures := by
  obtain ⟨haddr, hfut, hplain⟩ := entry?_eq_some sub
  have hold : Distinct ws (s.accept w).buffers (s.accept w).entries (s.accept w).futures :=
    h.mono (List.subset_cons_self _ _) (Nat.le_succ _) (Nat.le_add_right _ _)
  refine ⟨?_, ?_, ?_, ?_, ?_, ?_, ?_⟩
  · rw [List.map_append, List.nodup_append]
    refine ⟨h.addrs_nodup, by simp, ?_⟩
    rintro a ha b hb rfl
    obtain ⟨v, hv, hva⟩ := List.mem_map.mp ha
    have := h.addr_lt v hv
    simp only [List.map_cons, List.map_nil, List.mem_singleton] at hb
    omega
  · intro v hv
    rcases List.mem_append.mp hv with hv | hv
    · exact hold.addr_lt v hv
    · rw [List.mem_singleton.mp hv, haddr]
      exact Nat.lt_succ_self _
  · rw [List.map_append, List.nodup_append]
    refine ⟨h.commands_nodup, by simp, ?_⟩
    rintro a ha b hb rfl
    obtain ⟨v, hv, hva⟩ := List.mem_map.mp ha
    simp only [List.map_cons, List.map_nil, List.mem_singleton] at hb
    exact fresh (by rw [← hb, ← hva]; exact h.command_mem v hv)
  · intro v hv
    rcases List.mem_append.mp hv with hv | hv
    · exact hold.command_mem v hv
    · rw [List.mem_singleton.mp hv]
      exact List.mem_cons_self
  · rw [List.filterMap_append, List.nodup_append]
    refine ⟨h.futures_nodup, ?_, ?_⟩
    · rcases hfut with hf | hf <;> simp [hf]
    · rintro a ha b hb rfl
      obtain ⟨v, hv, hva⟩ := List.mem_filterMap.mp ha
      have := h.future_lt v hv a hva
      rcases hfut with hf | hf
      · simp [hf] at hb
      · simp only [List.filterMap_cons, hf, List.filterMap_nil, List.mem_singleton] at hb
        omega
  · intro v hv f hvf
    rcases List.mem_append.mp hv with hv | hv
    · exact hold.future_lt v hv f hvf
    · rw [List.mem_singleton.mp hv] at hvf
      rcases hfut with hf | hf
      · rw [hf] at hvf; cases hvf
      · rw [hf, Option.some.injEq] at hvf
        simp [Layer.accept, hf, hvf]
  · intro v hv
    rcases List.mem_append.mp hv with hv | hv
    · exact h.plain v hv
    · rw [List.mem_singleton.mp hv]
      exact hplain

/-- The invariant of every run: the live commands are told apart by their numbers, and the loop and
the list exist when the life cycle says so. -/
structure Sound (s : Layer) : Prop where
  distinct : Distinct s.live s.buffers s.entries s.futures
  loop : s.messageLoop = none ↔ s.life = .loopGone ∨ s.life = .off ∨ s.life = .starting
  pending : s.commandsPendingResponse = none ↔ s.life = .off

theorem sound_started : Sound started := by
  refine ⟨⟨?_, ?_, ?_, ?_, ?_, ?_, ?_⟩, ?_, ?_⟩ <;>
    simp [started, Layer.live, Layer.posted, Layer.waiting]

theorem Sound.waiting {s : Layer} (h : Sound s) :
    Distinct s.waiting s.buffers s.entries s.futures :=
  h.distinct.sublist (List.sublist_append_right _ _)

/-! ### Every step keeps it -/

@[simp] theorem filterMap_command?_map (ws : List WaitingCommand) :
    (ws.map Task.commandReady).filterMap Task.command? = ws := by
  simp [List.filterMap_map, Function.comp_def, Task.command?]

/-- Processing credits moves commands from the queue to the loop. -/
theorem live_processCommandCredits (credits : Int) (s : Layer) :
    (processCommandCredits credits s).1.live.Perm s.live := by
  cases hl : s.messageLoop with
  | none => rw [processCommandCredits_of_none credits hl]
  | some tasks =>
    obtain ⟨q₁, q₂, hq, heq, -, -⟩ := processCommandCredits_spec credits hl
    rw [heq, List.perm_iff_count]
    intro w
    simp only [Layer.live, Layer.waiting, Layer.posted, hq, hl, Option.getD_some,
      List.filterMap_append, filterMap_command?_map, List.count_append]
    omega

/-- What the credits of an answer leave alone: all but the credits, the queue, and the tasks of the
loop, to which commands from the queue are posted. -/
structure CreditFrame (s : Layer) (r : Layer × List Act) : Prop where
  life : r.1.life = s.life
  buffers : r.1.buffers = s.buffers
  entries : r.1.entries = s.entries
  futures : r.1.futures = s.futures
  pending : r.1.commandsPendingResponse = s.commandsPendingResponse
  loop : r.1.messageLoop = none ↔ s.messageLoop = none
  posts : ∃ ws ⊆ s.commandQueue, r.2 = ws.map .postTask

theorem creditFrame {credits : Int} {s : Layer} {r : Layer × List Act}
    (posts : r = processCommandCredits credits s) : CreditFrame s r := by
  rw [posts]
  cases hl : s.messageLoop with
  | none =>
    rw [processCommandCredits_of_none credits hl]
    exact ⟨rfl, rfl, rfl, rfl, rfl, by simp [hl], [], by simp, rfl⟩
  | some tasks =>
    obtain ⟨q₁, q₂, hq, heq, -, -⟩ := processCommandCredits_spec credits hl
    rw [heq]
    exact ⟨rfl, rfl, rfl, rfl, rfl, by simp [hl], q₁, hq ▸ List.subset_append_left _ _, rfl⟩

/-- **The live commands after a step** are those before it, with the new ones and without the
destroyed ones. -/
theorem Effect.live {s s' : Layer} {l : Label} {acts : List Act} (e : Effect s l s' acts)
    (hs : Sound s) : (s'.live ++ destroyed acts).Perm (s.live ++ made acts) := by
  rw [List.perm_iff_count]
  intro u
  cases e with
  | refused sub fresh credits gone =>
    simp [Layer.live, Layer.posted, Layer.waiting, Layer.accept]
  | posted sub fresh credits loop =>
    simp [Layer.live, Layer.posted, Layer.waiting, Layer.accept, loop, Task.command?,
      List.count_cons]
  | queued sub fresh credits =>
    simp [Layer.live, Layer.posted, Layer.waiting, Layer.accept, List.count_cons]
    omega
  | sent loop life =>
    simp [Layer.live, Layer.posted, Layer.waiting, loop, Task.command?, List.count_cons]
    omega
  | quit loop =>
    simp [Layer.live, Layer.posted, Layer.waiting, loop, List.filterMap_cons, Task.command?]
  | @answered packet opcode credits w l₁ l₂ ts fresh ans waiting takes looked r posts =>
    obtain ⟨ws, -, hws⟩ := (creditFrame posts).posts
    have hlive := (live_processCommandCredits credits.toNat
      { s.receive packet with commandsPendingResponse := some (l₁ ++ l₂) }).count_eq u
    rw [← posts] at hlive
    have hmade : made ([.handedIn packet.addr] ++
        (ts.map .touch ++ [.listRemove w] ++ r.2 ++ deliver packet w)) = [] := by
      simp [hws]
    have hdest : destroyed ([.handedIn packet.addr] ++
        (ts.map .touch ++ [.listRemove w] ++ r.2 ++ deliver packet w)) = [w] := by
      simp [hws]
    rw [hmade, hdest, List.count_append, updateCommandResponseTimer_live, hlive]
    simp only [Layer.live, waiting, List.count_append, List.count_cons, List.count_nil]
    simp only [Layer.waiting, Layer.posted, Layer.receive, Option.getD_some, List.count_append]
    omega
  | @unanswered packet opcode credits ts fresh ans none looked r posts =>
    obtain ⟨ws, -, hws⟩ := (creditFrame posts).posts
    have hlive := (live_processCommandCredits credits.toNat (s.receive packet)).count_eq u
    rw [← posts] at hlive
    have hmade : made ([.handedIn packet.addr] ++ (ts.map .touch ++ r.2 ++ [.free packet.addr])) =
        [] := by
      simp [hws]
    have hdest : destroyed ([.handedIn packet.addr] ++
        (ts.map .touch ++ r.2 ++ [.free packet.addr])) = [] := by
      simp [hws]
    rw [hmade, hdest, List.append_nil, List.append_nil, hlive]
    rfl
  | other fresh ans act =>
    rcases act with rfl | rfl <;>
      simp [Layer.live, Layer.receive, Layer.posted, Layer.waiting]
  | shutDown life =>
    cases hl : s.messageLoop <;>
      simp [Layer.live, Layer.posted, Layer.waiting, hl, List.filterMap_cons, Task.command?]
  | loopExit life =>
    have hmade : made (s.posted.map .forget) = [] := by
      simp [made, List.filterMap_map]
    have hdest : destroyed (s.posted.map .forget) = s.posted := by
      simp [destroyed, List.filterMap_map, Function.comp_def]
    rw [hmade, hdest]
    simp only [Layer.live, List.count_append, List.count_nil]
    simp only [Layer.posted, Layer.waiting, Option.getD_none, List.filterMap_nil, List.count_nil]
    omega
  | closeHci life =>
    have hmade : made (s.waiting.map .forget) = [] := by
      simp [made, List.filterMap_map]
    have hdest : destroyed (s.waiting.map .forget) = s.waiting := by
      simp [destroyed, List.filterMap_map, Function.comp_def]
    rw [hmade, hdest]
    simp [Layer.live, Layer.posted, Layer.waiting]
  | startUp life =>
    have hpend : s.commandsPendingResponse = none := hs.pending.mpr life
    simp [Layer.live, Layer.posted, Layer.waiting, hpend]
  | loopStart life =>
    have hloop : s.messageLoop = none := hs.loop.mpr (.inr (.inr life))
    simp [Layer.live, Layer.posted, Layer.waiting, hloop]

/-- What a step makes has new numbers, and the numbers given out only grow. -/
theorem Effect.distinct {s s' : Layer} {l : Label} {acts : List Act} (e : Effect s l s' acts)
    (hs : Sound s) : Distinct (s.live ++ made acts) s'.buffers s'.entries s'.futures := by
  have hkeep : ∀ {t : Layer}, made acts = [] → s.buffers ⊆ t.buffers → t.entries = s.entries →
      t.futures = s.futures → Distinct (s.live ++ made acts) t.buffers t.entries t.futures := by
    intro t hm hb he hf
    rw [hm, List.append_nil]
    exact hs.distinct.mono hb (Nat.le_of_eq he.symm) (Nat.le_of_eq hf.symm)
  cases e with
  | refused sub fresh credits gone => simpa using hs.distinct.accept sub fresh
  | posted sub fresh credits loop => simpa using hs.distinct.accept sub fresh
  | queued sub fresh credits => simpa using hs.distinct.accept sub fresh
  | sent loop life => exact hkeep (by simp) (by simp) (by simp) (by simp)
  | quit loop => exact hkeep (by simp) (by simp) rfl rfl
  | @answered packet opcode credits w l₁ l₂ ts fresh ans waiting takes looked r posts =>
    have frame := creditFrame posts
    obtain ⟨ws, -, hws⟩ := frame.posts
    refine hkeep (by simp [hws]) ?_ (by simp [frame.entries, Layer.receive])
      (by simp [frame.futures, Layer.receive])
    rw [updateCommandResponseTimer_buffers, frame.buffers]
    exact List.subset_cons_self _ _
  | @unanswered packet opcode credits ts fresh ans none looked r posts =>
    have frame := creditFrame posts
    obtain ⟨ws, -, hws⟩ := frame.posts
    refine hkeep (by simp [hws]) ?_ frame.entries frame.futures
    rw [frame.buffers]
    exact List.subset_cons_self _ _
  | other fresh ans act =>
    exact hkeep (by rcases act with rfl | rfl <;> simp) (List.subset_cons_self _ _) rfl rfl
  | shutDown life => exact hkeep (by simp) (by simp) rfl rfl
  | loopExit life => exact hkeep (by simp [made, List.filterMap_map]) (by simp) rfl rfl
  | closeHci life => exact hkeep (by simp [made, List.filterMap_map]) (by simp) rfl rfl
  | startUp life => exact hkeep (by simp) (by simp) rfl rfl
  | loopStart life => exact hkeep (by simp) (by simp) rfl rfl

/-- The loop and the list come and go with the life cycle. -/
theorem Effect.lifeCycle {s s' : Layer} {l : Label} {acts : List Act} (e : Effect s l s' acts)
    (hs : Sound s) :
    (s'.messageLoop = none ↔ s'.life = .loopGone ∨ s'.life = .off ∨ s'.life = .starting) ∧
      (s'.commandsPendingResponse = none ↔ s'.life = .off) := by
  have hloop := hs.loop
  have hpend := hs.pending
  cases e with
  | refused sub fresh credits gone => exact ⟨hloop, hpend⟩
  | posted sub fresh credits loop =>
    rw [loop] at hloop
    exact ⟨by simpa [Layer.accept] using hloop, hpend⟩
  | queued sub fresh credits => exact ⟨hloop, hpend⟩
  | sent loop life => rcases life with life | life <;> simp [life]
  | quit loop =>
    have hup : s.life ≠ .off := fun h => by simp [loop, h] at hloop
    simp [hpend, hup]
  | @answered packet opcode credits w l₁ l₂ ts fresh ans waiting takes looked r posts =>
    have frame := creditFrame posts
    have hsome : s.life ≠ .off := fun h => by
      rw [Layer.waiting, hpend.mpr h] at waiting
      simp at waiting
    rw [updateCommandResponseTimer_messageLoop, updateCommandResponseTimer_life,
      updateCommandResponseTimer_commandsPendingResponse, frame.loop, frame.life, frame.pending]
    exact ⟨hloop, by simpa [Layer.receive] using hsome⟩
  | @unanswered packet opcode credits ts fresh ans none looked r posts =>
    have frame := creditFrame posts
    rw [frame.loop, frame.life, frame.pending]
    exact ⟨hloop, hpend⟩
  | other fresh ans act => exact ⟨hloop, hpend⟩
  | shutDown life =>
    rw [life] at hloop hpend
    exact ⟨by simpa using hloop, by simpa using hpend⟩
  | loopExit life =>
    rw [life] at hpend
    simpa using hpend
  | closeHci life =>
    rw [life] at hloop
    simpa using hloop
  | startUp life =>
    rw [life] at hloop
    simpa using hloop
  | loopStart life =>
    rw [life] at hpend
    simpa using hpend

/-- **One step keeps the invariant.** -/
theorem Sound.step {s s' : Layer} {l : Label} {acts : List Act} (hs : Sound s)
    (h : step s l = some (s', acts)) : Sound s' := by
  have e : Effect s l s' acts := step_cases hs.waiting.addrs_nodup h
  refine ⟨?_, ?_, ?_⟩
  · exact ((e.distinct hs).perm (e.live hs)).sublist (List.sublist_append_left _ _)
  · exact (e.lifeCycle hs).1
  · exact (e.lifeCycle hs).2

/-- The invariant holds in every run. -/
theorem sound_of_run {C : Layer → Label → Prop} {tr : List (Label × List Act)} {s : Layer}
    (h : RunWhere Hci.step C started tr s) : Sound s :=
  h.invariant (P := fun _ s => Sound s) sound_started fun hs _ hstep => hs.step hstep

/-- **Everything a step of a run can do.** -/
theorem effect_of_run {C : Layer → Label → Prop} {tr : List (Label × List Act)} {s s' : Layer}
    {l : Label} {acts : List Act} (h : RunWhere Hci.step C started tr s)
    (hstep : Hci.step s l = some (s', acts)) : Effect s l s' acts :=
  step_cases (sound_of_run h).waiting.addrs_nodup hstep

/-! ### Futures that have been readied -/

/-- Everything done so far. -/
def history {ι : Type*} (tr : List (ι × List Act)) : List Act := tr.flatMap (·.2)

@[simp] theorem history_nil {ι : Type*} : history ([] : List (ι × List Act)) = [] := rfl

@[simp] theorem history_snoc {ι : Type*} (tr : List (ι × List Act)) (i : ι) (acts : List Act) :
    history (tr ++ [(i, acts)]) = history tr ++ acts := by
  simp [history]

/-- A step readies the futures of the commands that it takes off the pending list, with the packet
it received, and no others. -/
theorem Effect.readies {s s' : Layer} {l : Label} {acts : List Act} (e : Effect s l s' acts)
    (hs : Sound s) :
    (readied acts = [] ∧ removed acts = []) ∨
      ∃ packet, ∃ w ∈ s.waiting, l = .hciEventReceived packet ∧ removed acts = [w] ∧
        destroyed acts = [w] ∧
        readied acts = w.completeFuture.toList.map fun f => (f, packet.addr) := by
  cases e with
  | @answered packet opcode credits w l₁ l₂ ts fresh ans waiting takes looked r posts =>
    obtain ⟨ws, -, hws⟩ := (creditFrame posts).posts
    have hw : w ∈ s.waiting := by rw [waiting]; simp
    refine .inr ⟨packet, w, hw, rfl, by simp [hws], by simp [hws], ?_⟩
    simp [hws, readied_deliver packet w (hs.waiting.plain w hw)]
  | @unanswered packet opcode credits ts fresh ans none looked r posts =>
    obtain ⟨ws, -, hws⟩ := (creditFrame posts).posts
    exact .inl (by simp [hws])
  | other fresh ans act => exact .inl (by rcases act with rfl | rfl <;> simp)
  | loopExit life => exact .inl (by simp [Hci.readied, removed, List.filterMap_map])
  | closeHci life => exact .inl (by simp [Hci.readied, removed, List.filterMap_map])
  | _ => exact .inl (by simp)

/-- The futures readied so far are distinct, and none belongs to a live command. -/
structure Woken (acts : List Act) (s : Layer) : Prop where
  nodup : ((readied acts).map Prod.fst).Nodup
  lt : ∀ e ∈ readied acts, e.1 < s.futures
  dead : ∀ e ∈ readied acts, ∀ w ∈ s.live, w.completeFuture ≠ some e.1

/-- New futures have new numbers. -/
theorem Effect.futures {s s' : Layer} {l : Label} {acts : List Act} (e : Effect s l s' acts) :
    s.futures ≤ s'.futures ∧
      ∀ w ∈ made acts, ∀ f, w.completeFuture = some f → s.futures ≤ f := by
  have hsub : ∀ {w : WaitingCommand}, l.entry? s = some w → ∀ v ∈ [w], ∀ f,
      v.completeFuture = some f → s.futures ≤ f := by
    intro w sub v hv f hf
    rw [List.mem_singleton.mp hv] at hf
    obtain ⟨-, hnone | hnew, -⟩ := entry?_eq_some sub
    · rw [hnone] at hf; cases hf
    · rw [hnew, Option.some.injEq] at hf; exact Nat.le_of_eq hf
  cases e with
  | refused sub fresh credits gone => exact ⟨Nat.le_add_right _ _, by simpa using hsub sub⟩
  | posted sub fresh credits loop => exact ⟨Nat.le_add_right _ _, by simpa using hsub sub⟩
  | queued sub fresh credits => exact ⟨Nat.le_add_right _ _, by simpa using hsub sub⟩
  | @answered packet opcode credits w l₁ l₂ ts fresh ans waiting takes looked r posts =>
    have frame := creditFrame posts
    obtain ⟨ws, -, hws⟩ := frame.posts
    exact ⟨by simp [frame.futures, Layer.receive], by simp [hws]⟩
  | @unanswered packet opcode credits ts fresh ans none looked r posts =>
    have frame := creditFrame posts
    obtain ⟨ws, -, hws⟩ := frame.posts
    exact ⟨by simp [frame.futures, Layer.receive], by simp [hws]⟩
  | other fresh ans act => exact ⟨Nat.le_refl _, by rcases act with rfl | rfl <;> simp⟩
  | loopExit life => exact ⟨Nat.le_refl _, by simp [made, List.filterMap_map]⟩
  | closeHci life => exact ⟨Nat.le_refl _, by simp [made, List.filterMap_map]⟩
  | _ => exact ⟨by simp, by simp⟩

/-- **One step** readies at most one future, of a command that stops being live. -/
theorem Woken.step {done acts : List Act} {s s' : Layer} {l : Label} (h : Woken done s)
    (hs : Sound s) (e : Effect s l s' acts) : Woken (done ++ acts) s' := by
  have hperm := e.live hs
  have hdist := (e.distinct hs).perm hperm
  obtain ⟨hmono, hnew⟩ := e.futures
  have hold : ∀ r ∈ readied done, ∀ w ∈ s'.live, w.completeFuture ≠ some r.1 := by
    intro r hr w hw hf
    rcases List.mem_append.mp (hperm.mem_iff.mp (List.mem_append_left _ hw)) with hw | hw
    · exact h.dead r hr w hw hf
    · have hlt := h.lt r hr
      have hge := hnew w hw r.1 hf
      omega
  rcases e.readies hs with ⟨hnone, -⟩ | ⟨packet, w, hw, -, -, hdest, hready⟩
  · refine ⟨?_, ?_, ?_⟩
    all_goals rw [readied_append, hnone, List.append_nil]
    · exact h.nodup
    · exact fun r hr => Nat.lt_of_lt_of_le (h.lt r hr) hmono
    · exact hold
  · have hwlive : w ∈ s.live := List.mem_append_right _ hw
    cases hf : w.completeFuture with
    | none =>
      rw [hf] at hready
      refine ⟨?_, ?_, ?_⟩
      all_goals rw [readied_append, hready, Option.toList_none, List.map_nil, List.append_nil]
      · exact h.nodup
      · exact fun r hr => Nat.lt_of_lt_of_le (h.lt r hr) hmono
      · exact hold
    | some f =>
      rw [hf] at hready
      refine ⟨?_, ?_, ?_⟩
      all_goals rw [readied_append, hready, Option.toList_some, List.map_singleton]
      · rw [List.map_append, List.nodup_append]
        refine ⟨h.nodup, by simp, ?_⟩
        rintro a ha b hb rfl
        obtain ⟨r, hr, hra⟩ := List.mem_map.mp ha
        rw [List.map_singleton, List.mem_singleton] at hb
        exact h.dead r hr w hwlive (by rw [hf, hra, hb])
      · intro r hr
        rcases List.mem_append.mp hr with hr | hr
        · exact Nat.lt_of_lt_of_le (h.lt r hr) hmono
        · rw [List.mem_singleton.mp hr]
          exact Nat.lt_of_lt_of_le (hs.distinct.future_lt w hwlive f hf) hmono
      · intro r hr v hv
        rcases List.mem_append.mp hr with hr | hr
        · exact hold r hr v hv
        · rw [List.mem_singleton.mp hr]
          intro hvf
          -- the answered entry and a live one would share the future
          have hnd := hdist.futures_nodup
          rw [List.filterMap_append, hdest, List.nodup_append] at hnd
          exact hnd.2.2 f (List.mem_filterMap.mpr ⟨v, hv, hvf⟩) f (by simp [hf]) rfl

/-- **In every run** no future is readied twice, and none of a live command is readied yet. -/
theorem readied_of_run {C : Layer → Label → Prop} {tr : List (Label × List Act)} {s : Layer}
    (h : RunWhere Hci.step C started tr s) : Woken (history tr) s := by
  refine (h.invariant (P := fun tr s => Sound s ∧ Woken (history tr) s) ?_ ?_).2
  · exact ⟨sound_started, by simp, by simp, by simp⟩
  · rintro tr s l t acts ⟨hs, hw⟩ - hstep
    rw [history_snoc]
    exact ⟨hs.step hstep, hw.step hs (step_cases hs.waiting.addrs_nodup hstep)⟩

end Hci

end A1000

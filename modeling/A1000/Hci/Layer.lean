import A1000.Lib.Run

/-!
# The HCI layer

`hci_layer.cc`: commands go down to the controller through a credit counter, a queue and the tasks
of a message loop; events come up and are matched with the commands that wait for them.

## The steps

A step is one call, made while holding the locks it holds in the source:

* a submission (`transmit_command`, `transmit_command_futured`);
* the message loop running its oldest task (`event_command_ready`, or the quit closure);
* an event coming in from the controller (`hci_event_received`);
* the parts of `hci_module_shut_down` and of the next start-up that other calls may come between.

Steps come in any order. What a step does to the outside world, and to the memory the layer owns,
is its list of `Act`s in program order.

## Identities

Buffers (`BT_HDR`), wait entries and futures are told apart by numbers. Buffers are made outside
the layer: each one handed in is new (`buffers` remembers those that have been). Wait entries and
futures are allocated here, by counting.

Left out: the time stamps of the wait entries and the file of the firmware log, which nothing but
log output reads, and the data packets of `enqueue_packet`, which share the loop with the commands
but nothing else.
-/

namespace A1000

namespace Hci

/-! ### Constants of `hcidefs.h` -/

def hciCommandNone : UInt16 := 0x0000
def hciCommandCompleteEvt : UInt8 := 0x0E
def hciCommandStatusEvt : UInt8 := 0x0F
def hciVseSubcodeDebugInfoSubEvt : UInt8 := 0x57
def hciGrpVendorSpecific : UInt16 := 0xFC00

/-! ### Buffers and streams -/

/-- A `BT_HDR` with its payload. -/
structure BtHdr where
  addr : ℕ
  offset : ℕ
  data : List UInt8
  deriving DecidableEq, Repr

/-- `STREAM_TO_UINT8`: the byte read and the rest of the stream. -/
def streamToUint8 (s : List UInt8) : UInt8 × List UInt8 := (s.headD 0, s.tail)

/-- `STREAM_TO_UINT16`, little-endian. -/
def streamToUint16 (s : List UInt8) : UInt16 × List UInt8 :=
  let lo := streamToUint8 s
  let hi := streamToUint8 lo.2
  (lo.1.toUInt16 + hi.1.toUInt16 <<< 8, hi.2)

/-- The event code an incoming packet starts with. -/
def BtHdr.eventCode (packet : BtHdr) : UInt8 := (streamToUint8 packet.data).1

/-- The stream behind the event code and the parameter length. -/
def BtHdr.params (packet : BtHdr) : List UInt8 := (streamToUint8 packet.data).2.tail

/-- The opcode a command starts with. -/
def BtHdr.commandOpcode (command : BtHdr) : UInt16 :=
  (streamToUint16 (command.data.drop command.offset)).1

/-! ### State -/

/-- `waiting_command_t`; callbacks and futures are handles, `none` for `NULL`. -/
structure WaitingCommand where
  addr : ℕ
  opcode : UInt16
  completeFuture : Option ℕ
  completeCallback : Option ℕ
  statusCallback : Option ℕ
  context : ℕ
  /-- The command buffer. -/
  command : ℕ
  deriving DecidableEq, Repr

/-- A closure on the message loop. -/
inductive Task
  | commandReady (waitEntry : WaitingCommand)
  | quit
  deriving DecidableEq, Repr

/-- Where the module is between two start-ups. -/
inductive Life
  /-- The message loop runs. -/
  | up
  /-- `hci_module_shut_down` has posted the quit closure. -/
  | quitPosted
  /-- The quit closure has run: `Run` has returned, the loop still exists. -/
  | loopDone
  /-- `message_loop_run` has deleted the loop. -/
  | loopGone
  /-- The list of pending commands is freed. -/
  | off
  /-- `hci_module_start_up` has run, its thread has not made the loop yet. -/
  | starting
  deriving DecidableEq, Repr

/-- The command response timer. -/
inductive Timer
  | freed
  | cancelled
  /-- Set, with the wait entry it was set for as its context. -/
  | armed (waitEntry : Option ℕ)
  deriving DecidableEq, Repr

/-- The module's variables. -/
structure Layer where
  life : Life
  commandCredits : Int
  commandQueue : List WaitingCommand
  /-- The tasks of `message_loop_`, oldest first; `none` for `nullptr`. -/
  messageLoop : Option (List Task)
  /-- `none` for `NULL`. -/
  commandsPendingResponse : Option (List WaitingCommand)
  commandResponseTimer : Timer
  /-- The buffers that have been handed to the layer so far. -/
  buffers : List ℕ
  /-- How many wait entries have been allocated. -/
  entries : ℕ
  /-- How many futures have been made. -/
  futures : ℕ
  deriving DecidableEq, Repr

/-- The module after start-up, its loop running. -/
def started : Layer where
  life := .up
  commandCredits := 1
  commandQueue := []
  messageLoop := some []
  commandsPendingResponse := some []
  commandResponseTimer := .cancelled
  buffers := []
  entries := 0
  futures := 0

/-- The commands awaiting a response. -/
def Layer.waiting (s : Layer) : List WaitingCommand := s.commandsPendingResponse.getD []

/-- The command a task will make ready. -/
def Task.command? : Task → Option WaitingCommand
  | .commandReady w => some w
  | .quit => none

/-- The commands posted to the loop and not sent yet, oldest first. -/
def Layer.posted (s : Layer) : List WaitingCommand :=
  (s.messageLoop.getD []).filterMap Task.command?

/-- Every command the layer still holds. -/
def Layer.live (s : Layer) : List WaitingCommand := s.commandQueue ++ s.posted ++ s.waiting

/-! ### Acts -/

/-- What the layer does that can be seen from outside, or that concerns the memory it owns. -/
inductive Act
  /-- A buffer is handed to the layer. -/
  | handedIn (buffer : ℕ)
  | osiCalloc (waitEntry : WaitingCommand)
  /-- The layer reads or writes through a wait entry. -/
  | touch (waitEntry : WaitingCommand)
  | postTask (waitEntry : WaitingCommand)
  | listAppend (waitEntry : WaitingCommand)
  | listRemove (waitEntry : WaitingCommand)
  /-- `packet_fragmenter->fragment_and_dispatch`. -/
  | fragmentAndDispatch (command : ℕ)
  | completeCallback (callback packet context : ℕ)
  | statusCallback (callback : ℕ) (status : UInt8) (command context : ℕ)
  | futureReady (future packet : ℕ)
  | sendDataUpwards (packet : ℕ)
  /-- `buffer_allocator->free`. -/
  | free (buffer : ℕ)
  | osiFree (waitEntry : WaitingCommand)
  /-- The last reference to a wait entry is dropped without freeing it. -/
  | forget (waitEntry : WaitingCommand)
  deriving DecidableEq, Repr

/-! ### Sending -/

/-- `enqueue_command`. -/
def enqueueCommand (w : WaitingCommand) (s : Layer) : Layer × List Act :=
  if s.commandCredits > 0 then
    match s.messageLoop with
    -- HCI Layer was shut down
    | none => (s, [.touch w, .free w.command, .osiFree w])
    | some tasks =>
      ({ s with
          messageLoop := some (tasks ++ [.commandReady w])
          commandCredits := s.commandCredits - 1 }, [.postTask w])
  else ({ s with commandQueue := s.commandQueue ++ [w] }, [])

/-- `transmit_command`. -/
def transmitCommand (command : BtHdr) (completeCallback statusCallback : Option ℕ) (context : ℕ)
    (s : Layer) : Layer × List Act :=
  let w : WaitingCommand :=
    { addr := s.entries
      opcode := command.commandOpcode
      completeFuture := none
      completeCallback, statusCallback, context
      command := command.addr }
  let r := enqueueCommand w
    { s with buffers := command.addr :: s.buffers, entries := s.entries + 1 }
  (r.1, [.handedIn command.addr, .osiCalloc w] ++ r.2)

/-- `transmit_command_futured`; the future it returns is the one of the new wait entry. -/
def transmitCommandFutured (command : BtHdr) (s : Layer) : Layer × List Act :=
  let w : WaitingCommand :=
    { addr := s.entries
      opcode := command.commandOpcode
      completeFuture := some s.futures
      completeCallback := none
      statusCallback := none
      context := 0
      command := command.addr }
  let r := enqueueCommand w
    { s with
      buffers := command.addr :: s.buffers
      entries := s.entries + 1
      futures := s.futures + 1 }
  (r.1, [.handedIn command.addr, .osiCalloc w] ++ r.2)

/-- `update_command_response_timer`. -/
def updateCommandResponseTimer (s : Layer) : Layer :=
  match s.commandResponseTimer with
  | .freed => s
  | _ =>
    match s.waiting with
    | [] => { s with commandResponseTimer := .cancelled }
    | w :: _ => { s with commandResponseTimer := .armed (some w.addr) }

/-- `event_command_ready`. -/
def eventCommandReady (w : WaitingCommand) (s : Layer) : Layer × List Act :=
  let s := { s with commandsPendingResponse := some (s.waiting ++ [w]) }
  (updateCommandResponseTimer s,
    [.touch w, .listAppend w, .touch w, .fragmentAndDispatch w.command])

/-! ### Receiving -/

/-- The second pass of `get_waiting_command` takes a vendor-specific entry for a vendor-specific
opcode that is not its own. -/
def vsMismatch (opcode : UInt16) (w : WaitingCommand) : Bool :=
  w.opcode ≠ opcode ∧ w.opcode &&& hciGrpVendorSpecific = hciGrpVendorSpecific ∧
    opcode &&& hciGrpVendorSpecific = hciGrpVendorSpecific

/-- One pass over the list: the entries looked at, and the first one that matches. -/
def scan (p : WaitingCommand → Bool) :
    List WaitingCommand → List WaitingCommand × Option WaitingCommand
  | [] => ([], none)
  | w :: ws => if p w then ([w], some w) else (w :: (scan p ws).1, (scan p ws).2)

/-- `list_remove`, which compares pointers. -/
def listRemove (w : WaitingCommand) (ws : List WaitingCommand) : List WaitingCommand :=
  ws.eraseP fun v => v.addr = w.addr

/-- `get_waiting_command`. -/
def getWaitingCommand (opcode : UInt16) (s : Layer) : Layer × List Act × Option WaitingCommand :=
  let r₁ := scan (fun w => w.opcode = opcode) s.waiting
  let take (w : WaitingCommand) : Layer :=
    { s with commandsPendingResponse := s.commandsPendingResponse.map (listRemove w) }
  match r₁.2 with
  | some w => (take w, r₁.1.map .touch ++ [.listRemove w], some w)
  | none =>
    let r₂ := scan (vsMismatch opcode) s.waiting
    match r₂.2 with
    | some w => (take w, r₁.1.map .touch ++ r₂.1.map .touch ++ [.listRemove w], some w)
    | none => (s, r₁.1.map .touch ++ r₂.1.map .touch, none)

/-- `get_num_waiting_commands`. -/
def getNumWaitingCommands (s : Layer) : Int := s.waiting.length

/-- The loop of `process_command_credits`: the credits left, the commands taken from the front of
the queue, and the rest of it. -/
def postQueued : Int → List WaitingCommand → Int × List WaitingCommand × List WaitingCommand
  | credits, [] => (credits, [], [])
  | credits, w :: ws =>
    if credits > 0 then
      let r := postQueued (credits - 1) ws
      (r.1, w :: r.2.1, r.2.2)
    else (credits, [], w :: ws)

/-- `process_command_credits`. -/
def processCommandCredits (credits : Int) (s : Layer) : Layer × List Act :=
  match s.messageLoop with
  -- HCI Layer was shut down
  | none => (s, [])
  | some tasks =>
    -- subtract commands in flight
    let r := postQueued (credits - getNumWaitingCommands s) s.commandQueue
    ({ s with
        commandCredits := r.1
        commandQueue := r.2.2
        messageLoop := some (tasks ++ r.2.1.map .commandReady) }, r.2.1.map .postTask)

/-- The tail at the label `intercepted`. -/
def intercepted (eventCode : UInt8) (statusGivenToFuture : Bool) (packet : ℕ) :
    Option WaitingCommand → List Act
  | some w =>
    -- if it has a callback, it's responsible for freeing the packet
    (if eventCode = hciCommandStatusEvt ∧ !statusGivenToFuture ∨
        w.completeCallback.isNone ∧ w.completeFuture.isNone then
      [.free packet] else []) ++
    -- if it has a callback, it's responsible for freeing the command
    (if eventCode = hciCommandCompleteEvt ∨ w.statusCallback.isNone then
      [.free w.command] else []) ++
    [.osiFree w]
  | none => [.free packet]

/-- Handing a Command Complete to the entry it answers. -/
def giveComplete (packet : ℕ) (w : WaitingCommand) : List Act :=
  match w.completeCallback, w.completeFuture with
  | some cb, _ => [.completeCallback cb packet w.context]
  | none, some f => [.futureReady f packet]
  | none, none => []

/-- Handing a Command Status to the entry it answers, and whether the packet went into its
future. -/
def giveStatus (status : UInt8) (packet : ℕ) (w : WaitingCommand) : List Act × Bool :=
  match w.statusCallback, w.completeFuture with
  | some cb, _ => ([.statusCallback cb status w.command w.context], false)
  | none, some f => ([.futureReady f packet], true)
  | none, none => ([], false)

/-- Credits and opcode of a Command Complete. -/
def BtHdr.completeFields (packet : BtHdr) : UInt8 × UInt16 :=
  let credits := streamToUint8 packet.params
  (credits.1, (streamToUint16 credits.2).1)

/-- Status, credits and opcode of a Command Status. -/
def BtHdr.statusFields (packet : BtHdr) : UInt8 × UInt8 × UInt16 :=
  let status := streamToUint8 packet.params
  let credits := streamToUint8 status.2
  (status.1, credits.1, (streamToUint16 credits.2).1)

/-- `filter_incoming_event`; the last component is its result, whether the event was intercepted. -/
def filterIncomingEvent (packet : BtHdr) (s : Layer) : Layer × List Act × Bool :=
  if packet.eventCode = hciCommandCompleteEvt then
    let r₁ := getWaitingCommand packet.completeFields.2 s
    let r₂ := processCommandCredits packet.completeFields.1.toNat r₁.1
    match r₁.2.2 with
    | none =>
      (r₂.1, r₁.2.1 ++ r₂.2 ++ intercepted hciCommandCompleteEvt false packet.addr none, true)
    | some w =>
      (updateCommandResponseTimer r₂.1,
        r₁.2.1 ++ r₂.2 ++ [.touch w] ++ giveComplete packet.addr w ++ [.touch w] ++
          intercepted hciCommandCompleteEvt false packet.addr (some w), true)
  else if packet.eventCode = hciCommandStatusEvt then
    let r₁ := getWaitingCommand packet.statusFields.2.2 s
    let r₂ := processCommandCredits packet.statusFields.2.1.toNat r₁.1
    match r₁.2.2 with
    | none =>
      (r₂.1, r₁.2.1 ++ r₂.2 ++ intercepted hciCommandStatusEvt false packet.addr none, true)
    | some w =>
      let g := giveStatus packet.statusFields.1 packet.addr w
      (updateCommandResponseTimer r₂.1,
        r₁.2.1 ++ r₂.2 ++ [.touch w] ++ g.1 ++ [.touch w] ++
          intercepted hciCommandStatusEvt g.2 packet.addr (some w), true)
  else if packet.eventCode = hciVseSubcodeDebugInfoSubEvt then
    (s, [.free packet.addr], true)
  else (s, [], false)

/-- `hci_event_received`. -/
def hciEventReceived (packet : BtHdr) (s : Layer) : Layer × List Act :=
  let r := filterIncomingEvent packet { s with buffers := packet.addr :: s.buffers }
  (r.1, [.handedIn packet.addr] ++ r.2.1 ++
    if !r.2.2 then [.sendDataUpwards packet.addr] else [])

/-! ### Steps -/

/-- What can happen next. -/
inductive Label
  | transmitCommand (command : BtHdr) (completeCallback statusCallback : Option ℕ) (context : ℕ)
  | transmitCommandFutured (command : BtHdr)
  /-- The message loop runs its oldest task. -/
  | runTask
  | hciEventReceived (packet : BtHdr)
  /-- `hci_module_shut_down` up to posting the quit closure. -/
  | shutDown
  /-- `message_loop_run` deletes the loop, with the tasks that are left on it. -/
  | loopExit
  /-- `hci_module_shut_down` from `hci_close` on. -/
  | closeHci
  /-- `hci_module_start_up` once more. -/
  | startUp
  /-- The new thread has made its message loop. -/
  | loopStart
  deriving DecidableEq, Repr

/-- The layer as a step system. -/
def step (s : Layer) : Label → Option (Layer × List Act)
  | .transmitCommand command cb scb context =>
    if command.addr ∈ s.buffers then none else some (transmitCommand command cb scb context s)
  | .transmitCommandFutured command =>
    if command.addr ∈ s.buffers then none else some (transmitCommandFutured command s)
  | .runTask =>
    if s.life = .up ∨ s.life = .quitPosted then
      match s.messageLoop with
      | some (.commandReady w :: tasks) =>
        some (eventCommandReady w { s with messageLoop := some tasks })
      | some (.quit :: tasks) => some ({ s with messageLoop := some tasks, life := .loopDone }, [])
      | _ => none
    else none
  | .hciEventReceived packet =>
    if packet.addr ∈ s.buffers ∨ s.commandsPendingResponse = none then none
    else some (hciEventReceived packet s)
  | .shutDown =>
    if s.life = .up then
      some ({ s with
        life := .quitPosted
        commandResponseTimer := .freed
        messageLoop := s.messageLoop.map (· ++ [.quit]) }, [])
    else none
  | .loopExit =>
    if s.life = .loopDone then
      some ({ s with life := .loopGone, messageLoop := none }, s.posted.map .forget)
    else none
  | .closeHci =>
    if s.life = .loopGone then
      some ({ s with life := .off, commandsPendingResponse := none }, s.waiting.map .forget)
    else none
  | .startUp =>
    if s.life = .off then
      some ({ s with
        life := .starting
        commandCredits := 1
        commandResponseTimer := .cancelled
        commandsPendingResponse := some [] }, [])
    else none
  | .loopStart =>
    if s.life = .starting then some ({ s with life := .up, messageLoop := some [] }, []) else none

/-- The steps that are possible while the message loop stays alive. -/
def Label.Alive : Label → Prop
  | .transmitCommand .. | .transmitCommandFutured .. | .runTask | .hciEventReceived .. => True
  | _ => False

instance : DecidablePred Label.Alive
  | .transmitCommand .. | .transmitCommandFutured .. | .runTask | .hciEventReceived .. =>
    isTrue trivial
  | .shutDown | .loopExit | .closeHci | .startUp | .loopStart => isFalse not_false

end Hci

end A1000

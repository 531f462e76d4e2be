import A1000.Lib.Run
import A1000.Lib.Heap
import Mathlib.Data.BitVec
import Mathlib.Data.Int.Notation

/-!
# Transactions that wait for a frame

A transaction on a layer can be deferred until another layer, its barrier, latches a frame. The two
layers then share a sync point: the barrier sets `frameIsAvailable` when the frame has come in, the
waiting layer sets `transactionIsApplied` when it has committed the state, and the barrier latches
the frame after that. The waiting layer keeps its states in `mPendingStates` and its sync points in
`mRemoteSyncPoints`, and finds out which belong together by the numbers of their frames.

A run interleaves the calls of the clients, the frames that come in, and what the main thread does.
Between the check in `latchBuffer` and `updateTexImage` the clients and the frames go on.

## Main definitions

* `Flinger.Barrier.Layer`, `Flinger.Barrier.Sys` — the layers, and what they share
* `Flinger.Barrier.pushPendingState`, `Flinger.Barrier.applyPendingStates`
* `Flinger.Barrier.clearSyncPoints`, `Flinger.Barrier.doTransaction`
* `Flinger.Barrier.signaled`, `Flinger.Barrier.latchBuffer`, `Flinger.Barrier.updated`
* `Flinger.Barrier.step` — the whole
-/

namespace A1000

namespace Flinger

namespace Barrier

/-- A sync point. Whose transaction waits for whose frame, and whether the barrier has let it go
in `clearSyncPoints`, is kept to speak about it. -/
structure SyncPoint where
  frameNumber : ℕ
  frameIsAvailable : Bool
  transactionIsApplied : Bool
  waiter : ℕ
  barrier : ℕ
  letGo : Bool
  deriving DecidableEq, Repr

variable (D : Type*)

/-- A size with its transform: where it places the layer, and the rest of it. -/
structure Geometry where
  w : ℕ
  h : ℕ
  position : D
  matrix : D
  deriving DecidableEq

/-- `Layer::State`; `content` is what the setters write besides. -/
structure State where
  requested : Geometry D
  active : Geometry D
  content : D
  sequence : ℕ
  flags : BitVec 32
  mask : BitVec 32
  modified : Bool
  barrierLayer : Option ℕ
  frameNumber : ℕ
  deriving DecidableEq

/-- A layer. What has been pushed and what has been committed, with which sync points, is kept to
speak about it. -/
structure Layer where
  current : State D
  drawing : State D
  pendingStates : List (State D)
  remoteSyncPoints : List ℕ
  localSyncPoints : List ℕ
  /-- `eTransactionNeeded` is set. -/
  transactionNeeded : Bool
  children : List ℕ
  queueItems : List ℕ
  queuedFrames : ℤ
  lastFrameNumberReceived : ℕ
  currentFrameNumber : ℕ
  refreshPending : Bool
  autoRefresh : Bool
  updateTexImageFailed : Bool
  /-- There is a `mSidebandStream`. -/
  sidebandStream : Bool
  sidebandStreamChanged : Bool
  contentDirty : Bool
  pushed : List (State D × Option ℕ)
  committed : List (State D × Option ℕ)

/-- The layers that exist and the sync points, and the layer that is being latched. -/
structure Sys where
  layers : ℕ → Option (Layer D)
  nextLayer : ℕ
  points : ℕ → SyncPoint
  nextPoint : ℕ
  latching : Option ℕ

variable {D}

/-- The three errors about sync points, and that of a replaced frame. -/
inductive Message
  | unableToPromote
  | noLocalSyncPoint
  | unexpectedFrameNumber
  | emptyQueue
  deriving DecidableEq, Repr

def Sys.modify (s : Sys D) (l : ℕ) (f : Layer D → Layer D) : Sys D :=
  { s with layers := Heap.modify s.layers l f }

/-- Some of the sync points are changed. -/
def change (points : ℕ → SyncPoint) (ps : List ℕ) (f : SyncPoint → SyncPoint) : ℕ → SyncPoint :=
  fun p => if p ∈ ps then f (points p) else points p

def SyncPoint.setFrameAvailable (q : SyncPoint) : SyncPoint := { q with frameIsAvailable := true }

def SyncPoint.setTransactionApplied (q : SyncPoint) : SyncPoint :=
  { q with transactionIsApplied := true }

/-- `setFrameAvailable`, in `clearSyncPoints`. -/
def SyncPoint.clear (q : SyncPoint) : SyncPoint :=
  { q with frameIsAvailable := true, letGo := true }

/-! ### Pushing and applying -/

/-- The end of `pushPendingState`, with the sync point that the state waits at. -/
def Layer.push (p : Option ℕ) (x : Layer D) : Layer D :=
  { x with
    pendingStates := x.pendingStates ++ [x.current]
    pushed := x.pushed ++ [(x.current, p)] }

/-- The state is pushed without a barrier, because there is none to wait for. -/
def Layer.pushFree (x : Layer D) : Layer D :=
  Layer.push none { x with
    current := { x.current with barrierLayer := none }
    transactionNeeded := true }

/-- The state is pushed with a sync point for the frame `n` of the layer `b`. -/
def pushWaiting (s : Sys D) (l b n : ℕ) : Sys D :=
  let p := s.nextPoint
  let s := s.modify b fun y => { y with localSyncPoints := y.localSyncPoints ++ [p] }
  let s := s.modify l fun x => Layer.push (some p) { x with
    remoteSyncPoints := x.remoteSyncPoints ++ [p]
    transactionNeeded := true }
  { s with
    points := fun q => if q = p then ⟨n, false, false, l, b, false⟩ else s.points q
    nextPoint := p + 1 }

def pushPendingState (s : Sys D) (l : ℕ) (x : Layer D) : Sys D × List Message :=
  if ¬ x.current.modified then (s, [])
  else
    match x.current.barrierLayer with
    | none => (s.modify l (Layer.push none), [])
    | some b =>
      match s.layers b with
      | none => (s.modify l Layer.pushFree, [.unableToPromote])
      | some y =>
        -- `addSyncPoint`
        if x.current.frameNumber ≤ y.currentFrameNumber then (s.modify l Layer.pushFree, [])
        else (pushWaiting s l b x.current.frameNumber, [])

/-- `popPendingState`: the state to commit. -/
def popPendingState (c st : State D) : State D :=
  { st with flags := (c.flags &&& ~~~st.mask) ||| (st.flags &&& st.mask) }

/-- The turns of the loop of `applyPendingStates` that leave the first of the states where it is:
they dispose of sync points for another frame. -/
def skipUnexpected (n : ℕ) : List ℕ → (ℕ → SyncPoint) → List ℕ × (ℕ → SyncPoint) × List Message
  | [], points => ([], points, [])
  | p :: ps, points =>
    if (points p).frameNumber ≠ n then
      let r := skipUnexpected n ps (change points [p] .setTransactionApplied)
      (r.1, r.2.1, .unexpectedFrameNumber :: r.2.2)
    else (p :: ps, points, [])

/-- What `applyPendingStates` leaves, and what it has committed. -/
structure Applied (D : Type*) where
  pendingStates : List (State D)
  remoteSyncPoints : List ℕ
  points : ℕ → SyncPoint
  stateToCommit : State D
  committed : List (State D × Option ℕ)
  log : List Message

/-- A state that has been popped, before the others. -/
def Applied.popped (a : Applied D) (st : State D) (p : Option ℕ) (log : List Message) : Applied D :=
  { a with committed := (st, p) :: a.committed, log := log ++ a.log }

/-- The loop of `applyPendingStates`. -/
def applyPendingStates : List (State D) → List ℕ → (ℕ → SyncPoint) → State D → Applied D
  | [], remote, points, c => ⟨[], remote, points, c, [], []⟩
  | st :: pending, remote, points, c =>
    match st.barrierLayer with
    | none => (applyPendingStates pending remote points (popPendingState c st)).popped st none []
    | some _ =>
      match skipUnexpected st.frameNumber remote points with
      | ([], points, log) =>
        (applyPendingStates pending [] points (popPendingState c st)).popped st none
          (log ++ [.noLocalSyncPoint])
      | (p :: remote, points, log) =>
        if (points p).frameIsAvailable then
          (applyPendingStates pending remote (change points [p] .setTransactionApplied)
            (popPendingState c st)).popped st (some p) log
        else ⟨st :: pending, p :: remote, points, c, [], log⟩

/-- The layer after `applyPendingStates`. -/
def Layer.apply (x : Layer D) (a : Applied D) : Layer D :=
  { x with
    current := { x.current with modified := false }
    pendingStates := a.pendingStates
    remoteSyncPoints := a.remoteSyncPoints
    transactionNeeded := x.transactionNeeded || !a.pendingStates.isEmpty
    committed := x.committed ++ a.committed }

def Sys.apply (s : Sys D) (l : ℕ) (a : Applied D) : Sys D :=
  { s.modify l (·.apply a) with points := a.points }

/-! ### Transactions -/

/-- `clearSyncPoints`, without the children. -/
def clearLocal (s : Sys D) (l : ℕ) : Sys D :=
  match s.layers l with
  | none => s
  | some x =>
    { s.modify l fun x => { x with localSyncPoints := [] } with
      points := change s.points x.localSyncPoints .clear }

/-- `clearSyncPoints`; the first argument bounds the depth of the tree of children. -/
def clearSyncPoints : ℕ → ℕ → Sys D → Sys D
  | 0, _, s => s
  | depth + 1, l, s =>
    let children := ((s.layers l).map (·.children)).getD []
    clearLocal (children.foldl (fun s child => clearSyncPoints depth child s) s) l

/-- What else `doTransaction` looks at. -/
structure Mode where
  isFixedSize : Bool
  freezeGeometryUpdates : Bool
  deriving DecidableEq, Repr

/-- The geometry that is committed, and that of the current state. -/
def latchGeometry (m : Mode) (sidebandStream : Bool) (c current : State D) : State D × State D :=
  let resizePending := c.requested.w ≠ c.active.w ∨ c.requested.h ≠ c.active.h
  if ¬ m.isFixedSize ∧ resizePending ∧ ¬ sidebandStream then (c, current)
  else if m.freezeGeometryUpdates then
    let active := { c.requested with position := c.active.position }
    ({ c with active := active }, { current with active := active })
  else ({ c with active := c.requested }, { current with active := current.requested })

variable (eLayerHidden : BitVec 32) [DecidableEq D]

/-- `doTransaction`, of a layer whose transaction flag is set: what it logs, and whether visible
regions have to be computed again. -/
def doTransaction (m : Mode) (s : Sys D) (l : ℕ) (x : Layer D) : Sys D × List Message × Bool :=
  let s := s.modify l fun x => { x with transactionNeeded := false }
  let r := pushPendingState s l { x with transactionNeeded := false }
  match r.1.layers l with
  | none => (r.1, r.2, false)
  | some x =>
    let a := applyPendingStates x.pendingStates x.remoteSyncPoints r.1.points x.current
    let s := r.1.apply l a
    if a.committed.isEmpty then (s, r.2 ++ a.log, false)
    else
      let g := latchGeometry m x.sidebandStream a.stateToCommit { x.current with modified := false }
      let visibleRegion := x.drawing.active ≠ g.1.active ∨ g.1.sequence ≠ x.drawing.sequence
      let s := if g.1.flags &&& eLayerHidden ≠ 0 then clearSyncPoints s.nextLayer l s else s
      (s.modify l fun y => { y with
        current := g.2
        drawing := g.1
        contentDirty := y.contentDirty || g.1.sequence ≠ x.drawing.sequence },
        r.2 ++ a.log, visibleRegion)

/-- `deferTransactionUntil`. -/
def deferTransactionUntil (s : Sys D) (l : ℕ) (b : Option ℕ) (n : ℕ) : Sys D × List Message :=
  let s := s.modify l fun x => { x with
    current := { x.current with barrierLayer := b, frameNumber := n, modified := true } }
  match s.layers l with
  | none => (s, [])
  | some x =>
    let r := pushPendingState s l x
    (r.1.modify l fun x => { x with
      current := { x.current with barrierLayer := none, frameNumber := 0, modified := false } },
      r.2)

/-! ### Frames -/

def Layer.getHeadFrameNumber (x : Layer D) : ℕ := x.queueItems.headD x.currentFrameNumber

def notifyAvailableFrames (s : Sys D) (x : Layer D) : Sys D :=
  let come := x.localSyncPoints.filter fun p => (s.points p).frameNumber ≤ x.getHeadFrameNumber
  { s with points := change s.points come .setFrameAvailable }

/-- The loop of `allTransactionsSignaled`: the sync points, `matchingFramesFound` and
`allTransactionsApplied`. -/
def signaled (head : ℕ) : List ℕ → (ℕ → SyncPoint) → Bool → Bool → (ℕ → SyncPoint) × Bool × Bool
  | [], points, found, applied => (points, found, applied)
  | p :: ps, points, found, applied =>
    if (points p).frameNumber > head then (points, found, applied)
    else if ¬ (points p).frameIsAvailable then (change points [p] .setFrameAvailable, true, false)
    else signaled head ps points true (applied && (points p).transactionIsApplied)

/-- `latchBuffer`, when the sideband stream has changed. -/
def Layer.latchSideband (sidebandStream : Bool) (x : Layer D) : Layer D :=
  { x with
    sidebandStreamChanged := false
    sidebandStream := sidebandStream
    transactionNeeded := x.transactionNeeded || sidebandStream }

/-- `latchBuffer`, up to `updateTexImage`: the frame at the head when it gets there.
`sidebandStream` says whether the consumer has one now. -/
def latchBuffer (s : Sys D) (l : ℕ) (x : Layer D) (sidebandStream : Bool) : Sys D × Option ℕ :=
  if x.sidebandStreamChanged then (s.modify l (Layer.latchSideband sidebandStream), none)
  else if (x.queuedFrames ≤ 0 ∧ ¬ x.autoRefresh) ∨ x.refreshPending then (s, none)
  else
    let r := signaled x.getHeadFrameNumber x.localSyncPoints s.points false true
    if !r.2.1 || r.2.2 then
      ({ s with points := r.1, latching := some l }, some x.getHeadFrameNumber)
    else ({ s with points := r.1 }, none)

/-- What `updateTexImage` does: `queuedBuffer` is false for a buffer that has not been queued. -/
inductive Updated
  | presentLater
  | rejected (queuedBuffer : Bool)
  | failed (queuedBuffer : Bool)
  | latched (queuedBuffer : Bool) (frameNumber : ℕ) (hasBuffer : Bool)
  deriving DecidableEq, Repr

/-- The number of a queued buffer that has been latched. -/
def Updated.queued : Updated → Option ℕ
  | .latched true n _ => some n
  | _ => none

/-- Frames that were dropped or latched leave the shadow queue. -/
def Layer.dequeue (x : Layer D) (n : ℕ) : Layer D :=
  let rest := (x.queueItems.dropWhile (· ≠ n)).tail
  { x with
    queueItems := rest
    queuedFrames := x.queuedFrames - (x.queueItems.length - rest.length : ℕ) }

/-- A frame has been latched, and the sync points for it have been dealt with. -/
def Layer.latched (x : Layer D) (points : ℕ → SyncPoint) (n : ℕ) : Layer D :=
  { x with
    currentFrameNumber := n
    refreshPending := true
    localSyncPoints := x.localSyncPoints.filter fun p =>
      !((points p).frameIsAvailable && (points p).transactionIsApplied &&
        decide ((points p).frameNumber ≤ n)) }

/-- The rest of `latchBuffer`. -/
def updated (points : ℕ → SyncPoint) (r : Updated) (x : Layer D) : Layer D :=
  match r with
  | .presentLater => x
  | .rejected queuedBuffer =>
    if queuedBuffer then
      { x with queueItems := x.queueItems.tail, queuedFrames := x.queuedFrames - 1 }
    else x
  | .failed queuedBuffer => fail queuedBuffer
  | .latched queuedBuffer n hasBuffer =>
    if x.updateTexImageFailed then fail queuedBuffer
    else
      let x := if queuedBuffer then x.dequeue n else x
      if hasBuffer then x.latched points n else x
where
  fail (queuedBuffer : Bool) : Layer D :=
    let x := if queuedBuffer then { x with queueItems := [], queuedFrames := 0 } else x
    { x with updateTexImageFailed := true }

/-! ### Runs -/

inductive Input (D : Type*)
  /-- A new layer, with its first state. -/
  | create (st : State D)
  | destroy (l : ℕ)
  /-- Setters have written to the current state. -/
  | set (l : ℕ) (st : State D)
  | setChildren (l : ℕ) (children : List ℕ)
  | deferTransactionUntil (l b n : ℕ)
  | onFrameAvailable (l n : ℕ)
  | onFrameReplaced (l n : ℕ)
  | notifyAvailableFrames (l : ℕ)
  | doTransaction (l : ℕ) (m : Mode)
  | onSidebandStreamChanged (l : ℕ)
  | latchBuffer (l : ℕ) (sidebandStream : Bool)
  | updateTexImage (l : ℕ) (autoRefresh : Bool) (r : Updated)
  | onPreComposition (l : ℕ)
  deriving DecidableEq

/-- What is logged, the frame at the head of a layer that goes on to latch, and whether visible
regions have to be computed again. -/
structure Output where
  log : List Message
  head : Option ℕ
  visibleRegion : Bool
  deriving DecidableEq, Repr

def silent : Output := ⟨[], none, false⟩

/-- A new layer. -/
def Layer.ofState (st : State D) : Layer D where
  current := { st with
    active := st.requested, sequence := 0, barrierLayer := none }
  drawing := { st with
    active := st.requested, sequence := 0, barrierLayer := none }
  pendingStates := []
  remoteSyncPoints := []
  localSyncPoints := []
  transactionNeeded := false
  children := []
  queueItems := []
  queuedFrames := 0
  lastFrameNumberReceived := 0
  currentFrameNumber := 0
  refreshPending := false
  autoRefresh := false
  updateTexImageFailed := false
  sidebandStream := false
  sidebandStreamChanged := false
  contentDirty := false
  pushed := []
  committed := []

/-- The destructor of `Layer`. -/
def destroy (s : Sys D) (l : ℕ) (x : Layer D) : Sys D :=
  { s with
    layers := fun k => if k = l then none else s.layers k
    points := change (change s.points x.remoteSyncPoints .setTransactionApplied)
      x.localSyncPoints .setFrameAvailable }

/-- `onFrameAvailable`, when it is the frame's turn. -/
def Layer.onFrameAvailable (x : Layer D) (n : ℕ) : Option (Layer D) :=
  let last := if n = 1 then 0 else x.lastFrameNumberReceived
  if n ≠ last + 1 then none
  else some { x with
    queueItems := x.queueItems ++ [n]
    queuedFrames := x.queuedFrames + 1
    lastFrameNumberReceived := n }

/-- `onFrameReplaced`, when it is the frame's turn. -/
def Layer.onFrameReplaced (x : Layer D) (n : ℕ) : Option (Layer D × List Message) :=
  if n ≠ x.lastFrameNumberReceived + 1 then none
  else if x.queueItems.isEmpty then some (x, [.emptyQueue])
  else some ({ x with
    queueItems := x.queueItems.dropLast ++ [n], lastFrameNumberReceived := n }, [])

/-- What happens to a layer that exists. -/
def onLayer (s : Sys D) (l : ℕ) (f : Layer D → Option (Sys D × Output)) :
    Option (Sys D × Output) := (s.layers l).bind f

/-- The main thread does one thing after the other. -/
def onMain (s : Sys D) (l : ℕ) (f : Layer D → Sys D × Output) : Option (Sys D × Output) :=
  if s.latching = none then onLayer s l fun x => some (f x) else none

def step (s : Sys D) : Input D → Option (Sys D × Output)
  | .create st =>
    some ({ s with
      layers := fun k => if k = s.nextLayer then some (.ofState st) else s.layers k
      nextLayer := s.nextLayer + 1 }, silent)
  | .destroy l => onLayer s l fun x =>
    if s.latching = some l then none else some (destroy s l x, silent)
  | .set l st => onLayer s l fun _ =>
    some (s.modify l fun x => { x with
      current := { st with
        modified := true, barrierLayer := x.current.barrierLayer,
        frameNumber := x.current.frameNumber }
      transactionNeeded := true }, silent)
  | .setChildren l children => onLayer s l fun _ =>
    some (s.modify l fun x => { x with children := children }, silent)
  | .deferTransactionUntil l b n => onLayer s l fun _ =>
    -- the layer of a handle is promoted, and null when it is gone
    let r := deferTransactionUntil s l ((s.layers b).map fun _ => b) n
    some (r.1, { silent with log := r.2 })
  | .onFrameAvailable l n => onLayer s l fun x =>
    (x.onFrameAvailable n).map fun x => (s.modify l fun _ => x, silent)
  | .onFrameReplaced l n => onLayer s l fun x =>
    (x.onFrameReplaced n).map fun r => (s.modify l fun _ => r.1, { silent with log := r.2 })
  | .notifyAvailableFrames l => onMain s l fun x => (notifyAvailableFrames s x, silent)
  | .doTransaction l m =>
    if s.latching = none then onLayer s l fun x =>
      if ¬ x.transactionNeeded then none
      else
        let r := doTransaction eLayerHidden m s l x
        some (r.1, { silent with log := r.2.1, visibleRegion := r.2.2 })
    else none
  | .onSidebandStreamChanged l => onLayer s l fun _ =>
    some (s.modify l fun x => { x with sidebandStreamChanged := true }, silent)
  | .latchBuffer l sidebandStream => onMain s l fun x =>
    let r := latchBuffer s l x sidebandStream
    (r.1, { silent with head := r.2 })
  | .updateTexImage l autoRefresh r => onLayer s l fun x =>
    -- the buffer that is latched has been queued
    if s.latching ≠ some l ∨ (¬ x.updateTexImageFailed ∧ ∃ n ∈ r.queued, n ∉ x.queueItems) then none
    else some ({ s.modify l fun x => updated s.points r { x with autoRefresh := autoRefresh } with
      latching := none }, silent)
  | .onPreComposition l => onMain s l fun _ =>
    (s.modify l fun x => { x with refreshPending := false }, silent)

/-- No layers yet. -/
def start : Sys D where
  layers := fun _ => none
  nextLayer := 0
  points := fun _ => ⟨0, false, false, 0, 0, false⟩
  nextPoint := 0
  latching := none

end Barrier

end Flinger

end A1000

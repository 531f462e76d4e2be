import A1000.Hci.Layer

/-!
# Reporting encryption

`btu_hcif.cc` reports to the security manager that a link is encrypted, by `btm_sec_encrypt_change`.
Since the length of the key can be negotiated down by an attacker, it is first asked for: the events
for an encryption change and for a refreshed key send a Read Encryption Key Size command, and the
report is made when its answer comes, if the key is long enough. A controller that does not know the
command is never asked, and then the report is made at once.

The two events have handlers of their own, and so have the two answers. An answer may come after any
number of other events, for the same connection or others, so the requests that are outstanding are
the state of the system here.

## Main definitions

* `Btu.btuHcifEncryptionChangeEvt`, `Btu.btuHcifEncryptionKeyRefreshCmplEvt` — the events
* `Btu.readEncryptionKeySizeCompleteAfterEncryptionChange`,
  `Btu.readEncryptionKeySizeCompleteAfterKeyRefresh` — the answers
* `Btu.step` — events and answers in any order
* `Btu.Policy` — what a step may do

## Main results

* `Btu.event_cases`, `Btu.reply_cases` — what the handlers do
* `Btu.Accounted.step` — one step
* `Btu.policy_of_run` — every run, with the account of the commands sent
-/

namespace A1000

namespace Btu

open StepSystem Hci

/-! ### Constants of `hcidefs.h` -/

def hciSuccess : UInt8 := 0x00
def hciErrHostRejectSecurity : UInt8 := 0x0E
def hciErrPeerUser : UInt8 := 0x13
def hciErrInsuffcientSecurity : UInt8 := 0x2F

/-- `MIN_KEY_SIZE`. -/
def minKeySize : UInt8 := 7

/-! ### Acts -/

/-- The two callbacks a Read Encryption Key Size command is sent with. -/
inductive Callback
  | afterEncryptionChange
  | afterKeyRefresh
  deriving DecidableEq, Repr

/-- A command that has been sent: the connection it is about, and what is to run afterwards. -/
structure Request where
  handle : UInt16
  callback : Callback
  deriving DecidableEq, Repr

/-- What the handlers do. -/
inductive Act
  | btmAclEncryptChange (handle : UInt16) (status encrEnable : UInt8)
  | btmSecEncryptChange (handle : UInt16) (status encrEnable : UInt8)
  | btsndHcicDisconnect (handle : UInt16) (reason : UInt8)
  | btsndHcicReadEncryptionKeySize (request : Request)
  deriving DecidableEq, Repr

/-! ### The events -/

/-- The fields of an encryption change event. -/
structure EncryptionChange where
  status : UInt8
  handle : UInt16
  encrEnable : UInt8
  deriving DecidableEq, Repr

/-- Status, handle and the new state, as they are read off the stream. -/
def EncryptionChange.read (p : List UInt8) : EncryptionChange :=
  let status := streamToUint8 p
  let handle := streamToUint16 status.2
  ⟨status.1, handle.1, (streamToUint8 handle.2).1⟩

/-- `btu_hcif_encryption_change_evt`; `ble` is what `BTM_IsBleConnection` says of the handle, and
`supported` what `supports_read_encryption_key_size` says. -/
def btuHcifEncryptionChangeEvt (supported : Bool) (p : List UInt8) (ble : Bool) : List Act :=
  let e := EncryptionChange.read p
  if e.status ≠ hciSuccess ∨ e.encrEnable = 0 ∨ ble then
    [.btmAclEncryptChange e.handle e.status e.encrEnable,
      .btmSecEncryptChange e.handle e.status e.encrEnable]
  else if !supported then
    -- the controller does not know the command, so the length of the key is not checked
    [.btmAclEncryptChange e.handle e.status e.encrEnable,
      .btmSecEncryptChange e.handle e.status e.encrEnable]
  else [.btsndHcicReadEncryptionKeySize ⟨e.handle, .afterEncryptionChange⟩]

/-- The fields of a key refresh event. -/
structure KeyRefresh where
  status : UInt8
  handle : UInt16
  deriving DecidableEq, Repr

def KeyRefresh.read (p : List UInt8) : KeyRefresh :=
  let status := streamToUint8 p
  ⟨status.1, (streamToUint16 status.2).1⟩

/-- `btu_hcif_encryption_key_refresh_cmpl_evt`. -/
def btuHcifEncryptionKeyRefreshCmplEvt (supported : Bool) (p : List UInt8) (ble : Bool) :
    List Act :=
  let e := KeyRefresh.read p
  if e.status ≠ hciSuccess ∨ ble then
    [.btmSecEncryptChange e.handle e.status (if e.status = hciSuccess then 1 else 0)]
  else if !supported then [.btmSecEncryptChange e.handle e.status 1]
  else [.btsndHcicReadEncryptionKeySize ⟨e.handle, .afterKeyRefresh⟩]

/-! ### The answers -/

/-- `read_encryption_key_size_complete_after_encryption_change`. -/
def readEncryptionKeySizeCompleteAfterEncryptionChange (status : UInt8) (handle : UInt16)
    (keySize : UInt8) : List Act :=
  if status = hciErrInsuffcientSecurity then []
  else if status ≠ hciSuccess then [.btsndHcicDisconnect handle hciErrPeerUser]
  else if keySize < minKeySize then [.btsndHcicDisconnect handle hciErrHostRejectSecurity]
  else [.btmAclEncryptChange handle status 1, .btmSecEncryptChange handle status 1]

/-- `read_encryption_key_size_complete_after_key_refresh`. -/
def readEncryptionKeySizeCompleteAfterKeyRefresh (status : UInt8) (handle : UInt16)
    (keySize : UInt8) : List Act :=
  if status = hciErrInsuffcientSecurity then []
  else if status ≠ hciSuccess then [.btsndHcicDisconnect handle hciErrPeerUser]
  else if keySize < minKeySize then [.btsndHcicDisconnect handle hciErrHostRejectSecurity]
  else [.btmSecEncryptChange handle status 1]

def Callback.run : Callback → UInt8 → UInt16 → UInt8 → List Act
  | .afterEncryptionChange => readEncryptionKeySizeCompleteAfterEncryptionChange
  | .afterKeyRefresh => readEncryptionKeySizeCompleteAfterKeyRefresh

/-! ### Steps -/

/-- An event for a connection. `ble` is what `BTM_IsBleConnection` says of it at that moment. -/
inductive Event
  | encryptionChange (p : List UInt8) (ble : Bool)
  | keyRefresh (p : List UInt8) (ble : Bool)
  deriving DecidableEq, Repr

/-- What can happen next: an event, or the answer to one of the commands that are outstanding, with
the status, the connection and the size of the key it carries. -/
inductive Label
  | event (e : Event)
  | reply (request : Request) (status : UInt8) (handle : UInt16) (keySize : UInt8)
  deriving DecidableEq, Repr

def Event.handler (supported : Bool) : Event → List Act
  | .encryptionChange p ble => btuHcifEncryptionChangeEvt supported p ble
  | .keyRefresh p ble => btuHcifEncryptionKeyRefreshCmplEvt supported p ble

/-- The command an act sends. -/
def Act.request? : Act → Option Request
  | .btsndHcicReadEncryptionKeySize request => some request
  | _ => none

/-- The commands that are sent. -/
def requests (acts : List Act) : List Request := acts.filterMap Act.request?

/-- The system. Its state are the commands that have not been answered yet. -/
def step (supported : Bool) (outstanding : List Request) :
    Label → Option (List Request × List Act)
  | .event e =>
    let acts := e.handler supported
    some (outstanding ++ requests acts, acts)
  | .reply request status handle keySize =>
    if request ∈ outstanding then
      some (outstanding.erase request, request.callback.run status handle keySize)
    else none

/-! ### The policy -/

def Event.status : Event → UInt8
  | .encryptionChange p _ => (EncryptionChange.read p).status
  | .keyRefresh p _ => (KeyRefresh.read p).status

def Event.handle : Event → UInt16
  | .encryptionChange p _ => (EncryptionChange.read p).handle
  | .keyRefresh p _ => (KeyRefresh.read p).handle

def Event.ble : Event → Bool
  | .encryptionChange _ ble => ble
  | .keyRefresh _ ble => ble

/-- The event says that the link is encrypted now, with this key. -/
def Event.Enables : Event → Prop
  | .encryptionChange p _ => (EncryptionChange.read p).status = hciSuccess ∧
      (EncryptionChange.read p).encrEnable ≠ 0
  | .keyRefresh p _ => (KeyRefresh.read p).status = hciSuccess

/-- The callback that goes with the command an event sends. -/
def Event.callback : Event → Callback
  | .encryptionChange _ _ => .afterEncryptionChange
  | .keyRefresh _ _ => .afterKeyRefresh

/-- The report an act makes. -/
def Act.report? : Act → Option (UInt16 × UInt8 × UInt8)
  | .btmSecEncryptChange handle status encrEnable => some (handle, status, encrEnable)
  | _ => none

/-- The reports made to the security manager. -/
def reports (acts : List Act) : List (UInt16 × UInt8 × UInt8) := acts.filterMap Act.report?

/-- The connection an act closes. -/
def Act.closed? : Act → Option UInt16
  | .btsndHcicDisconnect handle _ => some handle
  | _ => none

/-- The connections that are closed. -/
def closed (acts : List Act) : List UInt16 := acts.filterMap Act.closed?

/-- **The policy**, for one step and what it does. -/
structure Policy (supported : Bool) (l : Label) (acts : List Act) : Prop where
  /-- Encryption of a BR/EDR link is reported when an answer says that its key is long enough, or
  at an event for it when the controller cannot be asked. -/
  report : ∀ handle, (handle, hciSuccess, 1) ∈ reports acts →
    (∃ request keySize, l = .reply request hciSuccess handle keySize ∧ minKeySize ≤ keySize) ∨
      ∃ e : Event, l = .event e ∧ e.handle = handle ∧ (supported = false ∨ e.ble = true)
  /-- A controller that does not know the command is not asked, and each event makes one report. -/
  unsupported : supported = false → requests acts = [] ∧
    ∀ e, l = .event e → ∃ encrEnable, reports acts = [(e.handle, e.status, encrEnable)]
  /-- One that does is asked once for each event that says that a BR/EDR link is encrypted. -/
  asked : supported = true → ∀ e, l = .event e → e.Enables → e.ble = false →
    acts = [.btsndHcicReadEncryptionKeySize ⟨e.handle, e.callback⟩]
  /-- The answer makes one report, or closes the connection, or neither when the link is no longer
  encrypted. -/
  reply : ∀ request status handle keySize, l = .reply request status handle keySize →
    requests acts = [] ∧
      (reports acts = [(handle, hciSuccess, 1)] ∧ closed acts = [] ∨
        reports acts = [] ∧ closed acts = [handle] ∨
        reports acts = [] ∧ closed acts = [] ∧ status = hciErrInsuffcientSecurity)

/-- The commands that have been answered. -/
def answered {ο : Type} (tr : List (Label × ο)) : List Request :=
  tr.filterMap fun e => match e.1 with
    | .reply request _ _ _ => some request
    | .event _ => none

/-! ### One step -/

/-- **What an event does**: it makes its report at once, or it asks for the size of the key. -/
theorem event_cases (supported : Bool) (e : Event) :
    (requests (e.handler supported) = [] ∧
      (¬ e.Enables ∨ e.ble = true ∨ supported = false) ∧
      ∃ encrEnable, reports (e.handler supported) = [(e.handle, e.status, encrEnable)] ∧
        (e.status = hciSuccess → encrEnable = 1 → e.ble = true ∨ supported = false)) ∨
    supported = true ∧ e.Enables ∧ e.ble = false ∧
      e.handler supported = [.btsndHcicReadEncryptionKeySize ⟨e.handle, e.callback⟩] := by
  cases e with
  | encryptionChange p ble =>
    simp only [Event.handler, btuHcifEncryptionChangeEvt, Event.Enables, Event.ble, Event.handle,
      Event.status, Event.callback]
    split_ifs with h hsup
    · refine .inl ⟨rfl, by tauto, _, rfl, fun hok hone => ?_⟩
      rcases h with hbad | hoff | hble
      · exact absurd hok hbad
      · rw [hone] at hoff
        exact absurd hoff (by decide)
      · exact .inl hble
    · have hno : supported = false := by simpa using hsup
      exact .inl ⟨rfl, .inr (.inr hno), _, rfl, fun _ _ => .inr hno⟩
    · rw [not_or, not_or] at h
      exact .inr ⟨by simpa using hsup, ⟨by simpa using h.1, h.2.1⟩, by simpa using h.2.2, rfl⟩
  | keyRefresh p ble =>
    simp only [Event.handler, btuHcifEncryptionKeyRefreshCmplEvt, Event.Enables, Event.ble,
      Event.handle, Event.status, Event.callback]
    split_ifs with h hok hsup
    · exact .inl ⟨rfl, by tauto, _, rfl, fun _ _ => .inl (h.resolve_left (not_not.mpr hok))⟩
    · exact .inl ⟨rfl, .inl hok, _, rfl, fun hok' => absurd hok' hok⟩
    · have hno : supported = false := by simpa using hsup
      exact .inl ⟨rfl, .inr (.inr hno), _, rfl, fun _ _ => .inr hno⟩
    · rw [not_or] at h
      exact .inr ⟨by simpa using hsup, by simpa using h.1, by simpa using h.2, rfl⟩

/-- What is reported of a key that is long enough. -/
def Callback.accept (handle : UInt16) (status : UInt8) : Callback → List Act
  | .afterEncryptionChange =>
    [.btmAclEncryptChange handle status 1, .btmSecEncryptChange handle status 1]
  | .afterKeyRefresh => [.btmSecEncryptChange handle status 1]

/-- Only there do the two differ. -/
theorem Callback.run_eq (callback : Callback) (status : UInt8) (handle : UInt16)
    (keySize : UInt8) :
    callback.run status handle keySize =
      if status = hciErrInsuffcientSecurity then []
      else if status ≠ hciSuccess then [.btsndHcicDisconnect handle hciErrPeerUser]
      else if keySize < minKeySize then [.btsndHcicDisconnect handle hciErrHostRejectSecurity]
      else callback.accept handle status := by
  cases callback <;> rfl

/-- **What an answer does**: both do the same to the connection and to the report. -/
theorem reply_cases (callback : Callback) (status : UInt8) (handle : UInt16) (keySize : UInt8) :
    requests (callback.run status handle keySize) = [] ∧
      (status = hciSuccess ∧ minKeySize ≤ keySize ∧
          reports (callback.run status handle keySize) = [(handle, hciSuccess, 1)] ∧
          closed (callback.run status handle keySize) = [] ∨
        reports (callback.run status handle keySize) = [] ∧
          closed (callback.run status handle keySize) = [handle] ∨
        reports (callback.run status handle keySize) = [] ∧
          closed (callback.run status handle keySize) = [] ∧
          status = hciErrInsuffcientSecurity) := by
  have haccept : requests (callback.accept handle hciSuccess) = [] ∧
      reports (callback.accept handle hciSuccess) = [(handle, hciSuccess, 1)] ∧
      closed (callback.accept handle hciSuccess) = [] := by
    cases callback <;> exact ⟨rfl, rfl, rfl⟩
  rw [Callback.run_eq]
  split_ifs with hstopped hbad hshort
  · exact ⟨rfl, .inr (.inr ⟨rfl, rfl, hstopped⟩)⟩
  · exact ⟨rfl, .inr (.inl ⟨rfl, rfl⟩)⟩
  · exact ⟨rfl, .inr (.inl ⟨rfl, rfl⟩)⟩
  · obtain rfl : status = hciSuccess := not_not.mp hbad
    exact ⟨haccept.1, .inl ⟨rfl, UInt8.not_lt.mp hshort, haccept.2⟩⟩

/-- **An event** keeps the policy. -/
theorem policy_event (supported : Bool) (e : Event) :
    Policy supported (.event e) (e.handler supported) := by
  rcases event_cases supported e with ⟨hreq, hwhy, encrEnable, hrep, hone⟩ | ⟨hsup, hen, hble, heq⟩
  · refine ⟨fun handle hmem => ?_, fun _ => ⟨hreq, fun e' he' => ?_⟩,
      fun hsup e' he' hen hble => ?_, fun request status handle keySize hl => by cases hl⟩
    · simp only [hrep, List.mem_singleton, Prod.mk.injEq] at hmem
      obtain ⟨hhandle, hstatus, hval⟩ := hmem
      exact .inr ⟨e, rfl, hhandle.symm, (hone hstatus.symm hval.symm).symm⟩
    · cases he'
      exact ⟨encrEnable, hrep⟩
    · cases he'
      rcases hwhy with hno | hno | hno
      · exact absurd hen hno
      · rw [hble] at hno; cases hno
      · rw [hsup] at hno; cases hno
  · refine ⟨fun handle hmem => ?_, fun hno => ?_, fun _ e' he' _ _ => ?_,
      fun request status handle keySize hl => by cases hl⟩
    · rw [heq] at hmem
      cases hmem
    · rw [hsup] at hno
      cases hno
    · cases he'
      exact heq

/-- **An answer** keeps the policy. -/
theorem policy_reply (supported : Bool) (request : Request) (status : UInt8) (handle : UInt16)
    (keySize : UInt8) :
    Policy supported (.reply request status handle keySize)
      (request.callback.run status handle keySize) := by
  obtain ⟨hreq, hcases⟩ := reply_cases request.callback status handle keySize
  refine ⟨fun h hmem => ?_, fun _ => ⟨hreq, fun e he => (by cases he)⟩, fun _ e he => (by cases he),
    fun request' status' handle' keySize' hl => ?_⟩
  · rcases hcases with ⟨rfl, hsize, hrep, -⟩ | ⟨hrep, -⟩ | ⟨hrep, -⟩
    · simp only [hrep, List.mem_singleton, Prod.mk.injEq] at hmem
      obtain ⟨rfl, -⟩ := hmem
      exact .inl ⟨request, keySize, rfl, hsize⟩
    · rw [hrep] at hmem; cases hmem
    · rw [hrep] at hmem; cases hmem
  · cases hl
    exact ⟨hreq, hcases.imp_left fun h => h.2.2⟩

/-! ### Every run -/

/-- A command is sent only at an event that says that a BR/EDR link is encrypted, to a controller
that knows it. -/
theorem mem_requests_handler {supported : Bool} {e : Event} {request : Request}
    (h : request ∈ requests (e.handler supported)) :
    supported = true ∧ e.Enables ∧ e.ble = false ∧ request = ⟨e.handle, e.callback⟩ := by
  rcases event_cases supported e with ⟨hreq, -⟩ | ⟨hsup, hen, hble, heq⟩
  · rw [hreq] at h
    cases h
  · rw [heq] at h
    exact ⟨hsup, hen, hble, List.mem_singleton.mp h⟩

@[simp] theorem requests_append (as bs : List Act) :
    requests (as ++ bs) = requests as ++ requests bs :=
  List.filterMap_append

/-- Everything that has been sent in a run. -/
def sentIn (tr : List (Label × List Act)) : List Request := requests (tr.flatMap Prod.snd)

@[simp] theorem sentIn_snoc (tr : List (Label × List Act)) (l : Label) (acts : List Act) :
    sentIn (tr ++ [(l, acts)]) = sentIn tr ++ requests acts := by
  simp [sentIn]

@[simp] theorem answered_snoc_event (tr : List (Label × List Act)) (e : Event) (acts : List Act) :
    answered (tr ++ [(.event e, acts)]) = answered tr := by
  simp [answered]

@[simp] theorem answered_snoc_reply (tr : List (Label × List Act)) (request : Request)
    (status : UInt8) (handle : UInt16) (keySize : UInt8) (acts : List Act) :
    answered (tr ++ [(.reply request status handle keySize, acts)]) = answered tr ++ [request] := by
  simp [answered]

/-- An earlier event asked for what is answered now. -/
def AskedBefore (tr : List (Label × List Act)) (l : Label) : Prop :=
  ∀ request status handle keySize, l = .reply request status handle keySize →
    ∃ e acts, (Label.event e, acts) ∈ tr ∧ e.Enables ∧ e.ble = false ∧
      request = ⟨e.handle, e.callback⟩

/-- The invariant: the commands that were sent are those that have been answered and those that are
outstanding, and each of them was sent at an event that called for it. -/
structure Accounted (supported : Bool) (tr : List (Label × List Act))
    (outstanding : List Request) : Prop where
  perm : (answered tr ++ outstanding).Perm (sentIn tr)
  cause : ∀ request ∈ sentIn tr, supported = true ∧ ∃ e acts, (Label.event e, acts) ∈ tr ∧
    e.Enables ∧ e.ble = false ∧ request = ⟨e.handle, e.callback⟩

/-- **One step** keeps the account. -/
theorem Accounted.step {supported : Bool} {tr : List (Label × List Act)}
    {outstanding outstanding' : List Request} {l : Label} {acts : List Act}
    (h : Accounted supported tr outstanding)
    (next : step supported outstanding l = some (outstanding', acts)) :
    Accounted supported (tr ++ [(l, acts)]) outstanding' ∧ AskedBefore tr l ∧
      Policy supported l acts := by
  cases l with
  | event e =>
    cases next
    refine ⟨⟨?_, ?_⟩, fun request status handle keySize hl => (by cases hl),
      policy_event supported e⟩
    · rw [answered_snoc_event, sentIn_snoc, ← List.append_assoc]
      exact h.perm.append_right _
    · intro request hmem
      rw [sentIn_snoc, List.mem_append] at hmem
      rcases hmem with hold | hnew
      · obtain ⟨hsup, e', acts', hin, hrest⟩ := h.cause request hold
        exact ⟨hsup, e', acts', List.mem_append_left _ hin, hrest⟩
      · obtain ⟨hsup, hen, hble, heq⟩ := mem_requests_handler hnew
        exact ⟨hsup, e, e.handler supported, by simp, hen, hble, heq⟩
  | reply request status handle keySize =>
    rw [Btu.step] at next
    split at next
    · rename_i hout
      cases next
      have hpolicy := policy_reply supported request status handle keySize
      have hnone := (hpolicy.reply request status handle keySize rfl).1
      have hsent : request ∈ sentIn tr := h.perm.subset (List.mem_append_right _ hout)
      refine ⟨⟨?_, ?_⟩, ?_, hpolicy⟩
      · rw [answered_snoc_reply, sentIn_snoc, hnone, List.append_nil, List.append_assoc]
        exact ((List.perm_cons_erase hout).symm.append_left _).trans h.perm
      · intro request' hmem
        rw [sentIn_snoc, hnone, List.append_nil] at hmem
        obtain ⟨hsup, e', acts', hin, hrest⟩ := h.cause request' hmem
        exact ⟨hsup, e', acts', List.mem_append_left _ hin, hrest⟩
      · intro request' status' handle' keySize' hl
        cases hl
        exact (h.cause request hsent).2
    · cases next

/-- **Encryption is reported only when the policy allows it.** In every run, with events and answers
for any connections in any order, every step keeps the policy, every answer is to a command that an
event for a BR/EDR link has called for, and the commands that were sent are, each once, those that
have been answered and those that are outstanding. -/
theorem policy_of_run {supported : Bool} {tr : List (Label × List Act)}
    {outstanding : List Request} (h : Run (step supported) [] tr outstanding) :
    Always (fun tr l acts => Policy supported l acts ∧ AskedBefore tr l) tr ∧
      (answered tr ++ outstanding).Perm (sentIn tr) := by
  have hinv : Accounted supported tr outstanding ∧
      Always (fun tr l acts => Policy supported l acts ∧ AskedBefore tr l) tr := by
    refine h.invariant (P := fun tr outstanding => Accounted supported tr outstanding ∧
      Always (fun tr l acts => Policy supported l acts ∧ AskedBefore tr l) tr) ?_ ?_
    · exact ⟨⟨.refl _, fun request hmem => by cases hmem⟩, always_nil⟩
    · rintro tr s l t acts ⟨hacc, halways⟩ - next
      obtain ⟨hacc', hasked, hpolicy⟩ := hacc.step next
      exact ⟨hacc', always_snoc.mpr ⟨halways, hpolicy, hasked⟩⟩
  exact ⟨hinv.2, hinv.1.perm⟩

/-- Two connections are encrypted, the key of the first is refreshed, and the answers come in
another order: one key is too short, one link is no longer encrypted, one key is good. -/
theorem policy_of_run_two :
    let c (handle : UInt16) : Request := ⟨handle, .afterEncryptionChange⟩
    let r (handle : UInt16) : Request := ⟨handle, .afterKeyRefresh⟩
    let tr : List (Label × List Act) :=
      [(.event (.encryptionChange [0, 1, 0, 1] false), [.btsndHcicReadEncryptionKeySize (c 1)]),
        (.event (.encryptionChange [0, 2, 0, 1] false), [.btsndHcicReadEncryptionKeySize (c 2)]),
        (.event (.keyRefresh [0, 1, 0] false), [.btsndHcicReadEncryptionKeySize (r 1)]),
        (.reply (r 1) hciSuccess 1 16, [.btmSecEncryptChange 1 0 1]),
        (.reply (c 2) hciSuccess 2 6, [.btsndHcicDisconnect 2 hciErrHostRejectSecurity]),
        (.reply (c 1) hciErrInsuffcientSecurity 1 0, [])]
    Always (fun tr l acts => Policy true l acts ∧ AskedBefore tr l) tr ∧
      (answered tr ++ []).Perm (sentIn tr) := by
  intro c r tr
  exact @policy_of_run true _ _ <| run_of_exec <|
    show exec (step true) (fun _ _ => True) [] [.event (.encryptionChange [0, 1, 0, 1] false),
      .event (.encryptionChange [0, 2, 0, 1] false), .event (.keyRefresh [0, 1, 0] false),
      .reply (r 1) hciSuccess 1 16, .reply (c 2) hciSuccess 2 6,
      .reply (c 1) hciErrInsuffcientSecurity 1 0] = some (_, _) from rfl

end Btu

end A1000

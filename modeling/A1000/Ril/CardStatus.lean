import A1000.Lib.Bytes

/-!
# The status of the SIM card

`radio::getIccCardStatusResponse` of `ril_service.cpp` turns the card status the vendor library
hands over into the one that is delivered upwards. The library is a blob made for another release:
its number of applications may be out of range, and its indices may point at no application. A
number out of range is taken for 0, and an index that is not below the number is replaced by -1.

An index below -1 is below every number, so it is delivered as it is. It names no application, and
it is not the -1 that stands for none: the status is well formed when no index is below -1, and
then only.

## Main definitions

* `Ril.getIccCardStatusResponse` — what is delivered
* `Ril.copyApplications` — the loop over the applications
* `Ril.WellFormed` — what may be said of a delivered status, given the vendor's

## Main results

* `Ril.copyApplications_eq` — the loop copies the first applications, in order
* `Ril.delivered_wellFormed_iff` — when the delivered status is well formed
-/

namespace A1000

namespace Ril

/-! ### What the vendor library hands over -/

/-- `RIL_CARD_MAX_APPS` of `ril.h`, a header from outside. -/
def rilCardMaxApps : ℕ := 8

/-- `RIL_AppStatus`; a string is `none` for `NULL`. -/
structure RilAppStatus where
  appType : Int
  appState : Int
  persoSubstate : Int
  aidPtr : Option Bytes
  appLabelPtr : Option Bytes
  pin1Replaced : Int
  pin1 : Int
  pin2 : Int
  deriving DecidableEq, Inhabited

/-- `RIL_CardStatus_v6`. -/
structure RilCardStatusV6 where
  cardState : Int
  universalPinState : Int
  gsmUmtsSubscriptionAppIndex : Int
  cdmaSubscriptionAppIndex : Int
  imsSubscriptionAppIndex : Int
  numApplications : Int
  applications : List RilAppStatus
  applications_length : applications.length = rilCardMaxApps

/-- `sizeof(RIL_CardStatus_v6)`: six words, and eight for each application. -/
def sizeofRilCardStatusV6 : ℕ := 4 * (6 + 8 * rilCardMaxApps)

/-! ### What is delivered -/

/-- `RadioResponseType`. -/
inductive RadioResponseType
  | solicited
  | solicitedAck
  | solicitedAckExp
  deriving DecidableEq

/-- The kinds of response there are in `libril`. -/
inductive ResponseType
  | solicited
  | unsolicited
  | solicitedAck
  | solicitedAckExp
  deriving DecidableEq

def rilESuccess : Int := 0

/-- `RadioError::INVALID_RESPONSE` of `types.hal`, from outside as well. -/
def invalidResponse : Int := 66

structure RadioResponseInfo where
  type : RadioResponseType
  serial : Int
  error : Int
  deriving DecidableEq

structure AppStatus where
  appType : Int
  appState : Int
  persoSubstate : Int
  aidPtr : Bytes
  appLabelPtr : Bytes
  pin1Replaced : Int
  pin1 : Int
  pin2 : Int
  deriving DecidableEq

/-- `AppStatus{}`. -/
def AppStatus.zero : AppStatus := ⟨0, 0, 0, [], [], 0, 0, 0⟩

structure CardStatus where
  cardState : Int
  universalPinState : Int
  gsmUmtsSubscriptionAppIndex : Int
  cdmaSubscriptionAppIndex : Int
  imsSubscriptionAppIndex : Int
  applications : List AppStatus
  deriving DecidableEq

/-- `CardStatus cardStatus = {}`. -/
def CardStatus.zero : CardStatus := ⟨0, 0, 0, 0, 0, []⟩

/-- `populateResponseInfo`, on an `RadioResponseInfo{}`. -/
def populateResponseInfo (serial : Int) (responseType : ResponseType) (e : Int) :
    RadioResponseInfo where
  type := match responseType with
    | .solicitedAckExp => .solicitedAckExp
    -- for the other kinds the field keeps its zero
    | _ => .solicited
  serial := serial
  error := e

/-- `convertCharPtrToHidlString`. -/
def convertCharPtrToHidlString (ptr : Option Bytes) : Bytes := ptr.getD []

/-- One turn of the loop over the applications. -/
def RilAppStatus.toAppStatus (a : RilAppStatus) : AppStatus where
  appType := a.appType
  appState := a.appState
  persoSubstate := a.persoSubstate
  aidPtr := convertCharPtrToHidlString a.aidPtr
  appLabelPtr := convertCharPtrToHidlString a.appLabelPtr
  pin1Replaced := a.pin1Replaced
  pin1 := a.pin1
  pin2 := a.pin2

/-- The vector of applications, resized and then filled by the loop. -/
def copyApplications (rilAppStatus : List RilAppStatus) (n : ℕ) : List AppStatus :=
  (List.range n).foldl
    (fun appStatus i => appStatus.set i (rilAppStatus.getD i default).toAppStatus)
    (List.replicate n .zero)

/-- `a1000_napp`. -/
def napp (p : RilCardStatusV6) : Int :=
  if p.numApplications < 0 ∨ p.numApplications > rilCardMaxApps then 0 else p.numApplications

/-- An index, against the number of applications. -/
def subscriptionAppIndex (index napp : Int) : Int := if index < napp then index else -1

/-- The branch of a response of the right length. -/
def cardStatusOf (p : RilCardStatusV6) : CardStatus where
  cardState := p.cardState
  universalPinState := p.universalPinState
  gsmUmtsSubscriptionAppIndex := subscriptionAppIndex p.gsmUmtsSubscriptionAppIndex (napp p)
  cdmaSubscriptionAppIndex := subscriptionAppIndex p.cdmaSubscriptionAppIndex (napp p)
  imsSubscriptionAppIndex := subscriptionAppIndex p.imsSubscriptionAppIndex (napp p)
  applications := copyApplications p.applications (napp p).toNat

/-- `radio::getIccCardStatusResponse`: what it hands to the response functions, if there are any.
`response` is `none` for `NULL`. -/
def getIccCardStatusResponse (hasRadioResponse : Bool) (responseType : ResponseType)
    (serial e : Int) (response : Option RilCardStatusV6) (responseLen : ℕ) :
    Option (RadioResponseInfo × CardStatus) :=
  if hasRadioResponse then
    let info := populateResponseInfo serial responseType e
    match response with
    | none => some ({ info with error := if e = rilESuccess then invalidResponse else e }, .zero)
    | some p =>
      if responseLen ≠ sizeofRilCardStatusV6 then
        some ({ info with error := if e = rilESuccess then invalidResponse else e }, .zero)
      else some (info, cardStatusOf p)
  else none

/-! ### A well-formed status -/

/-- An index `i` delivered beside `n` applications, the vendor having given `v`: it names an
application or is -1, and it is `v` if that names one. -/
def GoodIndex (n : ℕ) (v i : Int) : Prop :=
  (i = -1 ∨ 0 ≤ i ∧ i < n) ∧ (0 ≤ v → v < n → i = v)

/-- **A well-formed status** for what the vendor has given. -/
structure WellFormed (p : RilCardStatusV6) (c : CardStatus) : Prop where
  max : c.applications.length ≤ rilCardMaxApps
  copied : c.applications = (p.applications.take c.applications.length).map
    RilAppStatus.toAppStatus
  count : 0 ≤ p.numApplications → p.numApplications ≤ rilCardMaxApps →
    (c.applications.length : Int) = p.numApplications
  gsmUmts : GoodIndex c.applications.length p.gsmUmtsSubscriptionAppIndex
    c.gsmUmtsSubscriptionAppIndex
  cdma : GoodIndex c.applications.length p.cdmaSubscriptionAppIndex c.cdmaSubscriptionAppIndex
  ims : GoodIndex c.applications.length p.imsSubscriptionAppIndex c.imsSubscriptionAppIndex

/-! ### The applications -/

theorem napp_nonneg (p : RilCardStatusV6) : 0 ≤ napp p := by
  rw [napp]
  split_ifs <;> omega

theorem napp_le (p : RilCardStatusV6) : napp p ≤ rilCardMaxApps := by
  rw [napp]
  split_ifs <;> omega

theorem napp_of_range {p : RilCardStatusV6} (h0 : 0 ≤ p.numApplications)
    (hmax : p.numApplications ≤ rilCardMaxApps) : napp p = p.numApplications := by
  rw [napp, if_neg (by omega)]

/-- The loop after `k` of its turns: the first `k` applications are copied. -/
theorem copyApplications_turns {l : List RilAppStatus} {n : ℕ} (hn : n ≤ l.length) (k : ℕ)
    (hk : k ≤ n) :
    (List.range k).foldl (fun appStatus i => appStatus.set i (l.getD i default).toAppStatus)
      (List.replicate n .zero) =
        (l.take k).map RilAppStatus.toAppStatus ++ List.replicate (n - k) .zero := by
  induction k with
  | zero => simp
  | succ k ih =>
    have hlt : k < l.length := by omega
    have hrest : n - k = (n - (k + 1)) + 1 := by omega
    rw [List.range_succ, List.foldl_append, ih (by omega), List.foldl_cons, List.foldl_nil,
      List.set_append_right _ _ (by simp), hrest, List.replicate_succ]
    have hlen : ((l.take k).map RilAppStatus.toAppStatus).length = k := by simp; omega
    rw [hlen, Nat.sub_self, List.set_cons_zero, List.take_succ_eq_append_getElem hlt,
      List.map_append, List.append_assoc, List.getD_eq_getElem?_getD, List.getElem?_eq_getElem hlt]
    rfl

/-- **The loop copies the first applications**, in order. -/
theorem copyApplications_eq {l : List RilAppStatus} {n : ℕ} (hn : n ≤ l.length) :
    copyApplications l n = (l.take n).map RilAppStatus.toAppStatus := by
  rw [copyApplications, copyApplications_turns hn n le_rfl]
  simp

theorem applications_cardStatusOf (p : RilCardStatusV6) :
    (cardStatusOf p).applications =
      (p.applications.take (napp p).toNat).map RilAppStatus.toAppStatus := by
  refine copyApplications_eq ?_
  have h := napp_le p
  rw [p.applications_length]
  omega

theorem length_applications (p : RilCardStatusV6) :
    ((cardStatusOf p).applications.length : Int) = napp p := by
  have h0 := napp_nonneg p
  have hmax := napp_le p
  rw [applications_cardStatusOf, List.length_map, List.length_take, p.applications_length]
  omega

/-! ### The indices -/

/-- An index is delivered well unless it is below -1. -/
theorem goodIndex_iff {n : ℕ} {v : Int} :
    GoodIndex n v (subscriptionAppIndex v n) ↔ -1 ≤ v := by
  rw [GoodIndex, subscriptionAppIndex]
  split_ifs <;> omega

/-- **When the delivered status is well formed.** Whatever the vendor library hands over, with the
right length, the status delivered for it is well formed exactly when none of the three indices is
below -1. -/
theorem delivered_wellFormed_iff (responseType : ResponseType) (serial e : Int)
    (p : RilCardStatusV6) :
    ∃ info c,
      getIccCardStatusResponse true responseType serial e (some p) sizeofRilCardStatusV6 =
        some (info, c) ∧
      (WellFormed p c ↔ -1 ≤ p.gsmUmtsSubscriptionAppIndex ∧ -1 ≤ p.cdmaSubscriptionAppIndex ∧
        -1 ≤ p.imsSubscriptionAppIndex) := by
  refine ⟨_, cardStatusOf p, rfl, ?_⟩
  have hlen := length_applications p
  have hindex (v : Int) :
      GoodIndex (cardStatusOf p).applications.length v (subscriptionAppIndex v (napp p)) ↔
        -1 ≤ v := by
    rw [← hlen]
    exact goodIndex_iff
  constructor
  · intro h
    exact ⟨(hindex _).mp h.gsmUmts, (hindex _).mp h.cdma, (hindex _).mp h.ims⟩
  · rintro ⟨hgsm, hcdma, hims⟩
    have hmax := napp_le p
    refine ⟨by omega, ?_, fun h0 hle => ?_, (hindex _).mpr hgsm, (hindex _).mpr hcdma,
      (hindex _).mpr hims⟩
    · rw [show (cardStatusOf p).applications.length = (napp p).toNat by omega]
      exact applications_cardStatusOf p
    · rw [hlen, napp_of_range h0 hle]

/-- No application at all, and an index of -2. -/
theorem delivered_wellFormed_not_always :
    ¬ ∀ (responseType : ResponseType) (serial e : Int) (p : RilCardStatusV6) (info c),
      getIccCardStatusResponse true responseType serial e (some p) sizeofRilCardStatusV6 =
        some (info, c) → WellFormed p c := by
  intro hall
  let p : RilCardStatusV6 := ⟨1, 0, -2, -1, -1, 0, List.replicate 8 default, rfl⟩
  have h := (hall .solicited 0 0 p _ _ rfl).gsmUmts.1
  revert h
  decide

end Ril

end A1000

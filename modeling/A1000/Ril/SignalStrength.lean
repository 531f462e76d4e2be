import A1000.Ril.CardStatus

/-!
# The strength of the signal

`convertRilSignalStrengthToHal` of `ril_service.cpp` turns the structure of the vendor library into
the one that is delivered upwards. There are four versions of that structure, of 28, 48, 52 and 56
bytes, each the beginning of the next. The last two are converted as they are; any other length is
copied into the last version, as far as it goes, and what has not come is set to "unknown".

More is set to "unknown" than has not come: all of LTE where a part of it has come, and the last two
fields whatever has come. And of the numbers only the smallest has no opposite, which the conversion
takes it to have.

## Main definitions

* `Ril.convertRilSignalStrengthToHal`, `Ril.currentSignalStrengthInd` — what is delivered
* `Ril.Field` — the fields, in the order of their bytes
* `Ril.Decodes` — what is wanted: field by field, as the last version has them
* `Ril.Unharmed` — the condition on the bytes

## Main results

* `Ril.convertV10_cases` — the conversion is one of each field
* `Ril.field_asV10` — which fields come through, for every length
* `Ril.decodes_iff` — when a response decodes as it should
-/

namespace A1000

namespace Ril

open Bytes

/-! ### The structures -/

/-- `INT_MAX`. -/
abbrev intMax : Int32 := Int32.maxValue

/-- `RIL_GW_SignalStrength`, and `gw` of what is delivered. -/
@[ext]
structure GwSignalStrength where
  signalStrength : Int32
  bitErrorRate : Int32
  deriving DecidableEq

@[ext]
structure CdmaSignalStrength where
  dbm : Int32
  ecio : Int32
  deriving DecidableEq

@[ext]
structure EvdoSignalStrength where
  dbm : Int32
  ecio : Int32
  signalNoiseRatio : Int32
  deriving DecidableEq

@[ext]
structure LteSignalStrength where
  signalStrength : Int32
  rsrp : Int32
  rsrq : Int32
  rssnr : Int32
  cqi : Int32
  timingAdvance : Int32
  deriving DecidableEq

@[ext]
structure TdScdmaSignalStrength where
  rscp : Int32
  deriving DecidableEq

/-- `RIL_SignalStrength_v8`. -/
structure RilSignalStrengthV8 where
  gw : GwSignalStrength
  cdma : CdmaSignalStrength
  evdo : EvdoSignalStrength
  lte : LteSignalStrength

/-- `RIL_SignalStrength_v10`. -/
structure RilSignalStrengthV10 extends RilSignalStrengthV8 where
  tdScdma : TdScdmaSignalStrength

def sizeofRilSignalStrengthV5 : ℕ := 28

def sizeofRilSignalStrengthV6 : ℕ := 48

def sizeofRilSignalStrengthV8 : ℕ := 52

def sizeofRilSignalStrengthV10 : ℕ := 56

/-- The bytes taken for that structure. -/
def RilSignalStrengthV8.read (b : Bytes) : RilSignalStrengthV8 where
  gw := ⟨word b 0, word b 1⟩
  cdma := ⟨word b 2, word b 3⟩
  evdo := ⟨word b 4, word b 5, word b 6⟩
  lte := ⟨word b 7, word b 8, word b 9, word b 10, word b 11, word b 12⟩

def RilSignalStrengthV10.read (b : Bytes) : RilSignalStrengthV10 :=
  { RilSignalStrengthV8.read b with tdScdma := ⟨word b 13⟩ }

/-- `SignalStrength`. -/
@[ext]
structure SignalStrength where
  gw : GwSignalStrength
  cdma : CdmaSignalStrength
  evdo : EvdoSignalStrength
  lte : LteSignalStrength
  tdScdma : TdScdmaSignalStrength
  deriving DecidableEq

/-! ### The conversion -/

/-- What has no meaning. -/
inductive Undefined
  | overflow
  deriving DecidableEq

/-- `-x` of an `int`. -/
def neg (x : Int32) : Except Undefined Int32 :=
  if x = Int32.minValue then .error .overflow else .ok (-x)

/-- The fixup of `rsrp`. -/
def fixupRsrp (rsrp : Int32) : Except Undefined Int32 :=
  if rsrp = -1 then .ok intMax else if rsrp < -1 then neg rsrp else .ok rsrp

/-- "Fixup LTE for backwards compatibility"; `rssnr` is not remapped. -/
def LteSignalStrength.fixup (lte : LteSignalStrength) : Except Undefined LteSignalStrength := do
  let rsrp ← fixupRsrp lte.rsrp
  return { lte with
    signalStrength := if lte.signalStrength = -1 then 99 else lte.signalStrength
    rsrp := rsrp
    rsrq := if lte.rsrq = -1 then intMax else lte.rsrq
    cqi := if lte.cqi = -1 then intMax else lte.cqi }

/-- What the two conversions have in common. The structure is fixed up where it lies, and is not
looked at again. -/
def RilSignalStrengthV8.toHal (r : RilSignalStrengthV8) (tdScdma : TdScdmaSignalStrength) :
    Except Undefined SignalStrength := do
  let lte ← r.lte.fixup
  return ⟨r.gw, r.cdma, r.evdo, lte, tdScdma⟩

def convertRilSignalStrengthToHalV8 (r : RilSignalStrengthV8) : Except Undefined SignalStrength :=
  r.toHal ⟨intMax⟩

def convertRilSignalStrengthToHalV10 (r : RilSignalStrengthV10) :
    Except Undefined SignalStrength :=
  r.toHal r.tdScdma

/-- `v10` in the branch for the other lengths. -/
def shortToV10 (response : Bytes) : RilSignalStrengthV10 :=
  let v10 := zeros sizeofRilSignalStrengthV10
  let n := if response.length < sizeofRilSignalStrengthV10 then response.length
    else sizeofRilSignalStrengthV10
  let v10 := RilSignalStrengthV10.read (setSlice v10 0 n (response.take n))
  let lte :=
    if response.length < sizeofRilSignalStrengthV6 then
      { v10.lte with
        signalStrength := 99, rsrp := intMax, rsrq := intMax, rssnr := intMax, cqi := intMax }
    else v10.lte
  { v10 with lte := { lte with timingAdvance := intMax }, tdScdma := ⟨intMax⟩ }

/-- `convertRilSignalStrengthToHal`. -/
def convertRilSignalStrengthToHal (response : Bytes) : Except Undefined SignalStrength :=
  if response.length = sizeofRilSignalStrengthV8 then
    convertRilSignalStrengthToHalV8 (.read response)
  else if response.length = sizeofRilSignalStrengthV10 then
    convertRilSignalStrengthToHalV10 (.read response)
  else convertRilSignalStrengthToHalV10 (shortToV10 response)

/-- `RadioIndicationType`. -/
inductive RadioIndicationType
  | unsolicited
  | unsolicitedAckExp
  deriving DecidableEq

/-- `convertIntToRadioIndicationType`. -/
def convertIntToRadioIndicationType (indicationType : ResponseType) : RadioIndicationType :=
  if indicationType = .unsolicited then .unsolicited else .unsolicitedAckExp

/-- `radio::currentSignalStrengthInd`: what it hands to the indication functions, if there are any.
`response` is `none` for `NULL`. -/
def currentSignalStrengthInd (hasRadioIndication : Bool) (indicationType : ResponseType)
    (response : Option Bytes) :
    Except Undefined (Option (RadioIndicationType × SignalStrength)) :=
  if hasRadioIndication then
    match response with
    | none => .ok none
    | some response =>
      if response.length < sizeofRilSignalStrengthV5 then .ok none
      else do
        let signalStrength ← convertRilSignalStrengthToHal response
        return some (convertIntToRadioIndicationType indicationType, signalStrength)
  else .ok none

/-! ### The fields -/

/-- The fields, in the order of their bytes. -/
inductive Field
  | gwSignalStrength
  | gwBitErrorRate
  | cdmaDbm
  | cdmaEcio
  | evdoDbm
  | evdoEcio
  | evdoSignalNoiseRatio
  | lteSignalStrength
  | lteRsrp
  | lteRsrq
  | lteRssnr
  | lteCqi
  | lteTimingAdvance
  | tdScdmaRscp
  deriving DecidableEq

/-- The word a field is. -/
def Field.index : Field → ℕ
  | .gwSignalStrength => 0
  | .gwBitErrorRate => 1
  | .cdmaDbm => 2
  | .cdmaEcio => 3
  | .evdoDbm => 4
  | .evdoEcio => 5
  | .evdoSignalNoiseRatio => 6
  | .lteSignalStrength => 7
  | .lteRsrp => 8
  | .lteRsrq => 9
  | .lteRssnr => 10
  | .lteCqi => 11
  | .lteTimingAdvance => 12
  | .tdScdmaRscp => 13

/-- A field of what is delivered. -/
def SignalStrength.field (s : SignalStrength) : Field → Int32
  | .gwSignalStrength => s.gw.signalStrength
  | .gwBitErrorRate => s.gw.bitErrorRate
  | .cdmaDbm => s.cdma.dbm
  | .cdmaEcio => s.cdma.ecio
  | .evdoDbm => s.evdo.dbm
  | .evdoEcio => s.evdo.ecio
  | .evdoSignalNoiseRatio => s.evdo.signalNoiseRatio
  | .lteSignalStrength => s.lte.signalStrength
  | .lteRsrp => s.lte.rsrp
  | .lteRsrq => s.lte.rsrq
  | .lteRssnr => s.lte.rssnr
  | .lteCqi => s.lte.cqi
  | .lteTimingAdvance => s.lte.timingAdvance
  | .tdScdmaRscp => s.tdScdma.rscp

/-- The same field of the vendor's structure. -/
def RilSignalStrengthV10.field (r : RilSignalStrengthV10) (f : Field) : Int32 :=
  SignalStrength.field ⟨r.gw, r.cdma, r.evdo, r.lte, r.tdScdma⟩ f

/-- What stands for "unknown". -/
def Field.unknown : Field → Int32
  | .lteSignalStrength => 99
  | _ => intMax

/-- All bytes of the field are among the first `len`. -/
def Field.Contained (len : ℕ) (f : Field) : Prop := 4 * f.index + 4 ≤ len

instance (len : ℕ) (f : Field) : Decidable (f.Contained len) :=
  inferInstanceAs (Decidable (_ ≤ _))

/-- What the conversion of the last version makes of the bytes of a field: of a structure with these
bytes there and zeros elsewhere. -/
def Field.value? (b : Bytes) (f : Field) : Option Int32 :=
  let i := 4 * f.index
  let v10 := setSlice (zeros sizeofRilSignalStrengthV10) i (i + 4) (slice b i (i + 4))
  match convertRilSignalStrengthToHalV10 (.read v10) with
  | .ok s => some (s.field f)
  | .error _ => none

/-- **What is wanted.** -/
structure Decodes (b : Bytes) : Prop where
  /-- Nothing overflows, and each field is what the conversion of the last version makes of its
  bytes if these have come, and unknown otherwise. -/
  fields : ∃ s, (∀ t, currentSignalStrengthInd true t (some b) =
      .ok (some (convertIntToRadioIndicationType t, s))) ∧
    ∀ f : Field, some (s.field f) = if f.Contained b.length then f.value? b else some f.unknown
  /-- What is too long decodes as its beginning. -/
  longer : sizeofRilSignalStrengthV10 < b.length → ∀ t, currentSignalStrengthInd true t (some b) =
    currentSignalStrengthInd true t (some (b.take sizeofRilSignalStrengthV10))

/-! ### The condition -/

/-- The fields that come through when the response has this length. -/
def Field.Kept (len : ℕ) : Field → Prop
  | .lteSignalStrength | .lteRsrp | .lteRsrq | .lteRssnr | .lteCqi => 48 ≤ len
  | .lteTimingAdvance => len = 52 ∨ len = 56
  | .tdScdmaRscp => len = 56
  | _ => True

instance (len : ℕ) : (f : Field) → Decidable (f.Kept len)
  | .lteSignalStrength | .lteRsrp | .lteRsrq | .lteRssnr | .lteCqi =>
    inferInstanceAs (Decidable (48 ≤ len))
  | .lteTimingAdvance => inferInstanceAs (Decidable (_ ∨ _))
  | .tdScdmaRscp => inferInstanceAs (Decidable (len = 56))
  | .gwSignalStrength | .gwBitErrorRate | .cdmaDbm | .cdmaEcio | .evdoDbm | .evdoEcio
  | .evdoSignalNoiseRatio => .isTrue trivial

/-- The words that are converted to "unknown". -/
def Field.unknowns : Field → List Int32
  | .lteSignalStrength => [-1, 99]
  | .lteRsrp => [-1, intMax, -intMax]
  | .lteRsrq | .lteCqi => [-1, intMax]
  | _ => [intMax]

/-- **No harm is done**: the power that is converted has an opposite, and a field that has come but
does not come through is unknown anyway. -/
structure Unharmed (b : Bytes) : Prop where
  rsrp : 48 ≤ b.length → word b 8 ≠ Int32.minValue
  lost : ∀ f : Field, f.Contained b.length → ¬ f.Kept b.length → word b f.index ∈ f.unknowns

/-! ### One field -/

/-- What becomes of the word of a field. -/
def Field.convert? (x : Int32) : Field → Option Int32
  | .lteSignalStrength => some (if x = -1 then 99 else x)
  | .lteRsrp =>
    match fixupRsrp x with
    | .ok rsrp => some rsrp
    | .error _ => none
  | .lteRsrq | .lteCqi => some (if x = -1 then intMax else x)
  | _ => some x

/-- The fixup of `rsrp` overflows for the smallest number only. -/
theorem fixupRsrp_cases (x : Int32) :
    x = Int32.minValue ∧ fixupRsrp x = .error .overflow ∨
      x ≠ Int32.minValue ∧ ∃ y, fixupRsrp x = .ok y := by
  rw [fixupRsrp, neg]
  by_cases hmin : x = Int32.minValue
  · subst hmin
    exact .inl ⟨rfl, rfl⟩
  · refine .inr ⟨hmin, ?_⟩
    rw [if_neg hmin]
    split_ifs <;> exact ⟨_, rfl⟩

/-- **The conversion is one of each field**, unless it overflows. -/
theorem convertV10_cases (r : RilSignalStrengthV10) :
    r.field .lteRsrp = Int32.minValue ∧
        convertRilSignalStrengthToHalV10 r = .error .overflow ∨
      r.field .lteRsrp ≠ Int32.minValue ∧ ∃ s, convertRilSignalStrengthToHalV10 r = .ok s ∧
        ∀ f : Field, f.convert? (r.field f) = some (s.field f) := by
  rw [convertRilSignalStrengthToHalV10, RilSignalStrengthV8.toHal, LteSignalStrength.fixup]
  rcases fixupRsrp_cases r.lte.rsrp with ⟨hmin, hfix⟩ | ⟨hmin, y, hfix⟩
  · refine .inl ⟨hmin, ?_⟩
    rw [hfix]
    rfl
  · refine .inr ⟨hmin, ?_⟩
    rw [hfix]
    refine ⟨_, rfl, fun f => ?_⟩
    cases f <;> try rfl
    show (match fixupRsrp r.lte.rsrp with
      | .ok rsrp => some rsrp
      | .error _ => none) = _
    rw [hfix]
    rfl

theorem convert?_unknown (f : Field) : f.convert? f.unknown = some f.unknown := by
  cases f <;> rfl

/-- The words of which the conversion makes "unknown". -/
theorem convert?_eq_unknown_iff (f : Field) (x : Int32) :
    f.convert? x = some f.unknown ↔ x ∈ f.unknowns := by
  have hrsrp : fixupRsrp x = .ok intMax ↔ x = -1 ∨ x = intMax ∨ x = -intMax := by
    rw [fixupRsrp, neg]
    constructor
    · intro h
      split_ifs at h with hone hneg hmin
      · exact .inl hone
      · refine .inr (.inr ?_)
        rw [← Except.ok.inj h, Int32.neg_neg]
      · exact .inr (.inl (Except.ok.inj h))
    · rintro (rfl | rfl | rfl) <;> rfl
  have hremap (y : Int32) : some (if x = -1 then y else x) = some y ↔ x ∈ [-1, y] := by
    rw [Option.some_inj, List.mem_pair]
    split_ifs with hone
    · exact ⟨fun _ => .inl hone, fun _ => rfl⟩
    · exact ⟨.inr, fun h => h.resolve_left hone⟩
  cases f with
  | lteSignalStrength => exact hremap 99
  | lteRsrq | lteCqi => exact hremap intMax
  | lteRsrp =>
    have hmem : x ∈ Field.lteRsrp.unknowns ↔ x = -1 ∨ x = intMax ∨ x = -intMax := by
      simp [Field.unknowns]
    rw [hmem, ← hrsrp, Field.convert?]
    cases fixupRsrp x with
    | ok y => exact ⟨fun h => congrArg _ (Option.some.inj h), fun h => congrArg _ (Except.ok.inj h)⟩
    | error u => exact ⟨nofun, nofun⟩
  | _ =>
    show some x = some intMax ↔ x ∈ [intMax]
    rw [Option.some_inj, List.mem_singleton]

theorem Field.index_injective : Function.Injective Field.index := by
  intro f g h
  cases f <;> cases g <;> first | rfl | cases h

/-- What is delivered is its fields. -/
theorem SignalStrength.eq_of_field {s s' : SignalStrength} (h : ∀ f, s.field f = s'.field f) :
    s = s' := by
  ext
  · exact h .gwSignalStrength
  · exact h .gwBitErrorRate
  · exact h .cdmaDbm
  · exact h .cdmaEcio
  · exact h .evdoDbm
  · exact h .evdoEcio
  · exact h .evdoSignalNoiseRatio
  · exact h .lteSignalStrength
  · exact h .lteRsrp
  · exact h .lteRsrq
  · exact h .lteRssnr
  · exact h .lteCqi
  · exact h .lteTimingAdvance
  · exact h .tdScdmaRscp

/-- A field of a structure is its word. -/
theorem field_read (b : Bytes) (f : Field) :
    (RilSignalStrengthV10.read b).field f = word b f.index := by
  cases f <;> rfl

/-- What is wanted of a field that has come is the conversion of its word. -/
theorem value?_eq {b : Bytes} {f : Field} (h : f.Contained b.length) :
    f.value? b = f.convert? (word b f.index) := by
  have hroom : 4 * f.index + 4 ≤ (zeros sizeofRilSignalStrengthV10).length := by
    cases f <;> decide
  have hlen : (slice b (4 * f.index) (4 * f.index + 4)).length = 4 := by
    rw [length_slice, Nat.min_eq_left h, Nat.add_sub_cancel_left]
  set v10 := setSlice (zeros sizeofRilSignalStrengthV10) (4 * f.index) (4 * f.index + 4)
    (slice b (4 * f.index) (4 * f.index + 4)) with hv10
  have hself : (RilSignalStrengthV10.read v10).field f = word b f.index := by
    rw [field_read, hv10, word_setSlice_self hroom hlen]
    rfl
  have hother : ∀ g, g ≠ f → (RilSignalStrengthV10.read v10).field g = 0 := by
    intro g hg
    have hindex : g.index ≠ f.index := fun heq => hg (Field.index_injective heq)
    rw [field_read, hv10, word_setSlice_ne hroom hlen hindex, word_zeros]
  rw [Field.value?, ← hv10, ← hself]
  rcases convertV10_cases (.read v10) with ⟨hmin, herr⟩ | ⟨-, s, hok, hs⟩
  · -- only the field itself can be the one without an opposite
    have hf : f = .lteRsrp := by
      by_contra hne
      rw [hother _ (Ne.symm hne)] at hmin
      cases hmin
    subst hf
    rw [herr, hmin]
    rfl
  · rw [hok, hs]

/-! ### What comes through -/

/-- The last version of what has come. -/
def asV10 (b : Bytes) : RilSignalStrengthV10 :=
  if b.length = sizeofRilSignalStrengthV8 then
    { RilSignalStrengthV8.read b with tdScdma := ⟨intMax⟩ }
  else if b.length = sizeofRilSignalStrengthV10 then .read b
  else shortToV10 b

/-- All three ways are the last conversion, of three structures. -/
theorem convertRilSignalStrengthToHal_eq (b : Bytes) :
    convertRilSignalStrengthToHal b = convertRilSignalStrengthToHalV10 (asV10 b) := by
  rw [convertRilSignalStrengthToHal, asV10]
  split_ifs <;> rfl

/-- Any other length: the first three structures are copied, LTE if it is all there, and the last
two fields never. -/
theorem field_shortToV10 {b : Bytes} (h : 28 ≤ b.length) (h8 : b.length ≠ 52)
    (h10 : b.length ≠ 56) (f : Field) :
    (shortToV10 b).field f = if f.Kept b.length then word b f.index else f.unknown := by
  set n := if b.length < sizeofRilSignalStrengthV10 then b.length else sizeofRilSignalStrengthV10
    with hn
  have hlow : n ≤ b.length := by
    rw [hn]
    split_ifs with hlt
    · exact le_rfl
    · exact not_lt.mp hlt
  have hword : ∀ i, 4 * i + 4 ≤ n →
      word (setSlice (zeros sizeofRilSignalStrengthV10) 0 n (b.take n)) i = word b i := by
    intro i hi
    rw [word_setSlice_zero hi (List.length_take_of_le hlow), word_take hi]
  have h28 : 28 ≤ n := by
    rw [hn, sizeofRilSignalStrengthV10]
    split_ifs <;> omega
  have h48 : 48 ≤ b.length → 48 ≤ n := by
    intro hlen
    rw [hn, sizeofRilSignalStrengthV10]
    split_ifs <;> omega
  cases f with
  | gwSignalStrength | gwBitErrorRate | cdmaDbm | cdmaEcio | evdoDbm | evdoEcio
  | evdoSignalNoiseRatio =>
    exact hword _ (le_trans (by decide) h28)
  | lteSignalStrength | lteRsrp | lteRsrq | lteRssnr | lteCqi =>
    by_cases hlen : 48 ≤ b.length
    · simp only [Field.Kept, hlen, if_true]
      rw [← hword _ (le_trans (by decide) (h48 hlen))]
      simp only [RilSignalStrengthV10.field, SignalStrength.field, shortToV10,
        sizeofRilSignalStrengthV6, not_lt.mpr hlen, if_false]
      rfl
    · simp only [Field.Kept, hlen, RilSignalStrengthV10.field, SignalStrength.field, shortToV10,
        sizeofRilSignalStrengthV6, not_le.mp hlen, if_true, if_false]
      rfl
  | lteTimingAdvance =>
    simp only [Field.Kept, h8, h10, or_false, if_false]
    rfl
  | tdScdmaRscp =>
    simp only [Field.Kept, h10, if_false]
    rfl

/-- **Which fields come through**, for every length that is let in. -/
theorem field_asV10 {b : Bytes} (h : 28 ≤ b.length) (f : Field) :
    (asV10 b).field f = if f.Kept b.length then word b f.index else f.unknown := by
  by_cases h8 : b.length = sizeofRilSignalStrengthV8
  · rw [asV10, if_pos h8, h8]
    cases f <;> rfl
  by_cases h10 : b.length = sizeofRilSignalStrengthV10
  · have hkept : f.Kept sizeofRilSignalStrengthV10 := by cases f <;> decide
    rw [asV10, if_neg h8, if_pos h10, h10, if_pos hkept, field_read]
  · rw [asV10, if_neg h8, if_neg h10, field_shortToV10 h h8 h10]

/-- Only what has come comes through. -/
theorem Field.Kept.contained {len : ℕ} (h : 28 ≤ len) {f : Field} (hkept : f.Kept len) :
    f.Contained len := by
  cases f with
  | lteSignalStrength | lteRsrp | lteRsrq | lteRssnr | lteCqi =>
    exact le_trans (by decide) (show 48 ≤ len from hkept)
  | lteTimingAdvance =>
    rcases (show len = 52 ∨ len = 56 from hkept) with rfl | rfl <;> decide
  | tdScdmaRscp => exact le_of_eq (show len = 56 from hkept).symm
  | _ => exact le_trans (by decide) h

/-- All fields have come with the last version. -/
theorem Field.contained {len : ℕ} (h : sizeofRilSignalStrengthV10 ≤ len) (f : Field) :
    f.Contained len := by
  refine le_trans ?_ h
  cases f <;> decide

/-- What is let in is delivered as it is converted. -/
theorem delivers_iff {b : Bytes} (h : 28 ≤ b.length) (s : SignalStrength) :
    (∀ t, currentSignalStrengthInd true t (some b) =
        .ok (some (convertIntToRadioIndicationType t, s))) ↔
      convertRilSignalStrengthToHalV10 (asV10 b) = .ok s := by
  have hind : ∀ t, currentSignalStrengthInd true t (some b) = (do
      let signalStrength ← convertRilSignalStrengthToHalV10 (asV10 b)
      return some (convertIntToRadioIndicationType t, signalStrength)) := by
    intro t
    rw [← convertRilSignalStrengthToHal_eq]
    exact if_neg (not_lt.mpr h)
  simp only [hind]
  cases convertRilSignalStrengthToHalV10 (asV10 b) with
  | error u =>
    constructor
    · intro hall
      cases hall .unsolicited
    · nofun
  | ok s' =>
    constructor
    · intro hall
      have hone := Option.some.inj (Except.ok.inj (hall .unsolicited))
      exact congrArg _ (Prod.mk.inj hone).2
    · intro heq t
      rw [Except.ok.inj heq]
      rfl

/-- Where no harm is done, each field is the conversion of its word, or unknown. -/
theorem Unharmed.exists_fields {b : Bytes} (h : 28 ≤ b.length) (hu : Unharmed b) :
    ∃ s, (∀ t, currentSignalStrengthInd true t (some b) =
        .ok (some (convertIntToRadioIndicationType t, s))) ∧
      ∀ f : Field, some (s.field f) =
        if f.Contained b.length then f.convert? (word b f.index) else some f.unknown := by
  rcases convertV10_cases (asV10 b) with ⟨hmin, -⟩ | ⟨-, s, hok, hs⟩
  · exfalso
    rw [field_asV10 h] at hmin
    split_ifs at hmin with hkept
    · exact hu.rsrp hkept hmin
    · cases hmin
  refine ⟨s, (delivers_iff h s).mpr hok, fun f => ?_⟩
  rw [← hs f, field_asV10 h]
  by_cases hkept : f.Kept b.length
  · rw [if_pos hkept, if_pos (hkept.contained h)]
  rw [if_neg hkept, convert?_unknown]
  split_ifs with hcont
  · exact ((convert?_eq_unknown_iff f _).mpr (hu.lost f hcont hkept)).symm
  · rfl

/-- No harm is done to the beginning of what is too long. -/
theorem Unharmed.take {b : Bytes} (h : sizeofRilSignalStrengthV10 ≤ b.length) (hu : Unharmed b) :
    Unharmed (b.take sizeofRilSignalStrengthV10) := by
  have hlen : (b.take sizeofRilSignalStrengthV10).length = sizeofRilSignalStrengthV10 :=
    List.length_take_of_le h
  refine ⟨fun _ => ?_, fun f _ hlost => absurd ?_ hlost⟩
  · rw [word_take (by decide)]
    exact hu.rsrp (le_trans (by decide) h)
  · rw [hlen]
    cases f <;> decide

/-- What decodes as it should has come to no harm. -/
theorem Decodes.unharmed {b : Bytes} (h : 28 ≤ b.length) (hd : Decodes b) : Unharmed b := by
  obtain ⟨s, hind, hfields⟩ := hd.fields
  have hconv := (delivers_iff h s).mp hind
  rcases convertV10_cases (asV10 b) with ⟨-, herr⟩ | ⟨hmin, s', hok, hs⟩
  · cases hconv.symm.trans herr
  obtain rfl : s = s' := Except.ok.inj (hconv.symm.trans hok)
  refine ⟨fun hlen => ?_, fun f hcont hkept => ?_⟩
  · rwa [field_asV10 h, if_pos (show Field.Kept _ .lteRsrp from hlen)] at hmin
  · -- the field was set to unknown, and is wanted to be the conversion of its word
    have hlost := hs f
    rw [field_asV10 h, if_neg hkept, convert?_unknown] at hlost
    have hwant := hfields f
    rw [if_pos hcont, value?_eq hcont, ← hlost] at hwant
    exact (convert?_eq_unknown_iff f _).mp hwant.symm

/-- What has come to no harm decodes as it should. -/
theorem Unharmed.decodes {b : Bytes} (h : 28 ≤ b.length) (hu : Unharmed b) : Decodes b := by
  obtain ⟨s, hind, hs⟩ := hu.exists_fields h
  refine ⟨⟨s, hind, fun f => ?_⟩, fun hlong t => ?_⟩
  · rw [hs f]
    split_ifs with hcont
    · exact (value?_eq hcont).symm
    · rfl
  · have hlen : (b.take sizeofRilSignalStrengthV10).length = sizeofRilSignalStrengthV10 :=
      List.length_take_of_le hlong.le
    have hroom : 28 ≤ (b.take sizeofRilSignalStrengthV10).length := by
      rw [hlen]
      decide
    obtain ⟨s', hind', hs'⟩ := (hu.take hlong.le).exists_fields hroom
    have hsame : s = s' := by
      refine SignalStrength.eq_of_field fun f => Option.some.inj ?_
      rw [hs f, hs' f, hlen, if_pos (f.contained hlong.le), if_pos (f.contained le_rfl),
        word_take (f.contained le_rfl)]
    rw [hind, hind', hsame]

/-- **When a response decodes as it should**: the power of LTE is not the smallest number, and the
fields that are set to unknown though they have come were unknown. -/
theorem decodes_iff {b : Bytes} (h : 28 ≤ b.length) : Decodes b ↔ Unharmed b :=
  ⟨Decodes.unharmed h, Unharmed.decodes h⟩

/-- A structure of version 6, as the vendor library sends it. -/
theorem decodes_v6 : Decodes ([18, 99, 0, 0, 0, 0, 0, 31, 97, 9, 300, 12].flatMap packU32) := by
  refine (decodes_iff (by decide)).mpr ⟨fun _ => by decide, fun f hcont hkept => ?_⟩
  cases f <;> first | exact absurd (by decide) hkept | exact absurd hcont (by decide)

/-- Four bytes more than the last version, and the timing advance is lost. -/
theorem decodes_not_always : ¬∀ b : Bytes, 28 ≤ b.length → Decodes b := by
  intro h
  have hlonger := (h ([18, 99, 0, 0, 0, 0, 0, 31, 97, 9, 300, 12, 5, 60, 0].flatMap packU32)
    (by decide)).longer (by decide) .unsolicited
  revert hlonger
  decide

end Ril

end A1000

import A1000.Hci.Live
import A1000.Hci.Parser

/-!
# Handing an answer to a parser

A future gets a Command Complete or a Command Status, whatever the command was. The parse functions
were written for a Command Complete that reports success; most of them insist on one, and a few do
not look. This file says for each of them which answers it can be handed.

`read_command_complete_header` turns a Command Status into `NULL`, so a parse function that reads
from the stream without a look at it reads through `NULL`. The one for the suggested data length
reads one byte of two and keeps the buffer, whatever it is given. The one for the codecs takes their
number from the controller and has no bound for it.

## Main definitions

* `Hci.IsAnswer` — the events that reach a future
* `Hci.ParseFn.carried` — what an answer carries, by the layout of its parameters
* `Hci.ParseFn.Safe` — a parse function aborts, or returns having done its job
* `Hci.ParseFn.SafeWhen` — the answers it can be handed

## Main results

* `Hci.readCommandCompleteHeader_eq` — the header
* `Hci.ParseFn.safe_iff` — which answers a parse function can be handed
* `Hci.counted_inside_iff` — which counted answers stay inside their arrays
-/

namespace A1000

namespace Hci

open Walk Fallible

/-! ### Answers -/

/-- The parameter length an event declares. -/
def BtHdr.parameterLength (packet : BtHdr) : UInt8 := byteAt packet.data 1

/-- The opcode of a Command Complete. -/
def BtHdr.opcode (packet : BtHdr) : UInt16 := le16At packet.params 1

/-- The status of a Command Complete. -/
def BtHdr.status (packet : BtHdr) : UInt8 := byteAt packet.params 3

/-- What follows the status of a Command Complete. -/
def BtHdr.returned (packet : BtHdr) : List UInt8 := packet.params.drop 4

/-- **The events that reach a future**: a Command Complete or a Command Status, with its parameters
as it declares them, and enough of them for the fields every such event has. -/
structure IsAnswer (packet : BtHdr) : Prop where
  offset : packet.offset = 0
  code : packet.eventCode = hciCommandCompleteEvt ∨ packet.eventCode = hciCommandStatusEvt
  length : packet.data.length = 2 + packet.parameterLength.toNat
  header : (if packet.eventCode = hciCommandCompleteEvt then 3 else 4) ≤
    packet.parameterLength.toNat

/-- The layer gives a future nothing else. -/
theorem code_of_readied {s s' : Layer} {packet : BtHdr} {acts : List Act} {f p : ℕ}
    (e : Effect s (.hciEventReceived packet) s' acts) (h : (f, p) ∈ readied acts) :
    packet.eventCode = hciCommandCompleteEvt ∨ packet.eventCode = hciCommandStatusEvt := by
  have hans (r) (ans : packet.answer? = some r) :
      packet.eventCode = hciCommandCompleteEvt ∨ packet.eventCode = hciCommandStatusEvt := by
    rw [BtHdr.answer?] at ans
    split_ifs at ans with hcc hcs
    · exact .inl hcc
    · exact .inr hcs
  generalize hl : Label.hciEventReceived packet = l at e
  cases e with
  | answered fresh ans => cases hl; exact hans _ ans
  | unanswered fresh ans => cases hl; exact hans _ ans
  | other fresh ans act =>
    rcases act with rfl | rfl <;> simp at h
  | refused sub => cases hl; cases sub
  | posted sub => cases hl; cases sub
  | queued sub => cases hl; cases sub
  | _ => cases hl

/-! ### The header -/

/-- A Command Complete that passes the assertions of the header. -/
def BtHdr.Passes (packet : BtHdr) (expectedOpcode : UInt16) (minimumBytesAfter : ℕ) : Prop :=
  4 + minimumBytesAfter ≤ packet.parameterLength.toNat ∧
    (expectedOpcode = noOpcodeChecking ∨ packet.opcode = expectedOpcode)

instance (packet : BtHdr) (expectedOpcode : UInt16) (minimumBytesAfter : ℕ) :
    Decidable (packet.Passes expectedOpcode minimumBytesAfter) :=
  inferInstanceAs (Decidable (_ ∧ _))

theorem BtHdr.params_eq (packet : BtHdr) : packet.params = packet.data.drop 2 := by
  rw [BtHdr.params, streamToUint8, ← List.drop_one, ← List.drop_one, List.drop_drop]

theorem BtHdr.eventCode_eq (packet : BtHdr) : packet.eventCode = byteAt packet.data 0 := by
  rw [BtHdr.eventCode, streamToUint8, byteAt, List.headD_eq_head?_getD,
    List.getD_eq_getElem?_getD, List.head?_eq_getElem?]

theorem IsAnswer.length_params {packet : BtHdr} (h : IsAnswer packet) :
    packet.params.length = packet.parameterLength.toNat := by
  have hlen := h.length
  rw [BtHdr.params_eq, List.length_drop]
  omega

theorem IsAnswer.length_returned {packet : BtHdr} (h : IsAnswer packet) :
    packet.returned.length = packet.parameterLength.toNat - 4 := by
  rw [BtHdr.returned, List.length_drop, h.length_params]

theorem IsAnswer.declared {packet : BtHdr} (h : IsAnswer packet) :
    declared packet.parameterLength (some (packet.data.drop 2)) = some packet.params := by
  rw [Hci.declared, Option.map_some, ← packet.params_eq, List.take_of_length_le
    (Nat.le_of_eq h.length_params)]

/-- **The header**: what `read_command_complete_header` makes of an answer. -/
theorem readCommandCompleteHeader_eq {packet : BtHdr} (h : IsAnswer packet)
    (expectedOpcode : UInt16) (minimumBytesAfter : ℕ) :
    readCommandCompleteHeader packet expectedOpcode minimumBytesAfter =
      if packet.eventCode ≠ hciCommandCompleteEvt then .ok none
      else if packet.Passes expectedOpcode minimumBytesAfter then
        if packet.status = hciSuccess then .ok (some packet.returned) else .ok none
      else .error .assertion := by
  have hlen := h.length
  have hparams := h.length_params
  rw [readCommandCompleteHeader, h.offset, readUint8_drop (by omega), ok_bind,
    readUint8_drop (by omega), ok_bind, ← packet.eventCode_eq]
  by_cases hcode : packet.eventCode ≠ hciCommandCompleteEvt
  · rw [if_pos hcode, if_pos hcode]
    rfl
  · rw [if_neg hcode, if_neg hcode]
    show (do
      assert (4 + minimumBytesAfter ≤ packet.parameterLength.toNat)
      let opcode ← readUint16
        (skipUint8 (Hci.declared packet.parameterLength (some (packet.data.drop 2))))
      assert (expectedOpcode = noOpcodeChecking ∨ opcode.1 = expectedOpcode)
      let status ← readUint8 opcode.2
      if status.1 ≠ hciSuccess then pure none else pure status.2) = _
    rw [h.declared, skipUint8_some]
    by_cases hmin : 4 + minimumBytesAfter ≤ packet.parameterLength.toNat
    · rw [assert_bind hmin, readUint16_drop (by omega), ok_bind]
      show (do
        assert (expectedOpcode = noOpcodeChecking ∨ packet.opcode = expectedOpcode)
        let status ← readUint8 (some (packet.params.drop 3))
        if status.1 ≠ hciSuccess then pure none else pure status.2) = _
      by_cases hopcode : expectedOpcode = noOpcodeChecking ∨ packet.opcode = expectedOpcode
      · have hpasses : packet.Passes expectedOpcode minimumBytesAfter := ⟨hmin, hopcode⟩
        rw [assert_bind hopcode, readUint8_drop (by omega), ok_bind, if_pos hpasses]
        show (if packet.status ≠ hciSuccess then Except.ok none else .ok (some packet.returned)) = _
        by_cases hstatus : packet.status = hciSuccess
        · rw [if_neg (not_not.mpr hstatus), if_pos hstatus]
        · rw [if_pos hstatus, if_neg hstatus]
      · rw [assert_bind_of_not hopcode, if_neg fun hpasses => hopcode hpasses.2]
    · rw [assert_bind_of_not hmin, if_neg fun hpasses => hmin hpasses.1]

/-- The answers whose header gives a stream: a Command Complete that reports success. -/
def BtHdr.Succeeds (packet : BtHdr) : Prop :=
  packet.eventCode = hciCommandCompleteEvt ∧ packet.status = hciSuccess

instance (packet : BtHdr) : Decidable packet.Succeeds := inferInstanceAs (Decidable (_ ∧ _))

/-- The answers whose header aborts. -/
def BtHdr.Aborts (packet : BtHdr) (expectedOpcode : UInt16) (minimumBytesAfter : ℕ) : Prop :=
  packet.eventCode = hciCommandCompleteEvt ∧ ¬ packet.Passes expectedOpcode minimumBytesAfter

instance (packet : BtHdr) (expectedOpcode : UInt16) (minimumBytesAfter : ℕ) :
    Decidable (packet.Aborts expectedOpcode minimumBytesAfter) :=
  inferInstanceAs (Decidable (_ ∧ ¬ _))

/-- The header by cases: it aborts, gives a stream that is long enough, or gives `NULL`. -/
theorem header_cases {packet : BtHdr} (h : IsAnswer packet) (expectedOpcode : UInt16)
    (minimumBytesAfter : ℕ) :
    packet.Aborts expectedOpcode minimumBytesAfter ∧
        readCommandCompleteHeader packet expectedOpcode minimumBytesAfter = .error .assertion ∨
      ¬ packet.Aborts expectedOpcode minimumBytesAfter ∧ packet.Succeeds ∧
        minimumBytesAfter ≤ packet.returned.length ∧
        readCommandCompleteHeader packet expectedOpcode minimumBytesAfter =
          .ok (some packet.returned) ∨
      ¬ packet.Aborts expectedOpcode minimumBytesAfter ∧ ¬ packet.Succeeds ∧
        readCommandCompleteHeader packet expectedOpcode minimumBytesAfter = .ok none := by
  rw [readCommandCompleteHeader_eq h, BtHdr.Aborts, BtHdr.Succeeds]
  split_ifs with hcode hpasses hstatus
  · exact .inr (.inr ⟨fun habort => hcode habort.1, fun hok => hcode hok.1, rfl⟩)
  · refine .inr (.inl ⟨fun habort => habort.2 hpasses, ⟨not_not.mp hcode, hstatus⟩, ?_, rfl⟩)
    have hmin := hpasses.1
    rw [h.length_returned]
    omega
  · exact .inr (.inr ⟨fun habort => habort.2 hpasses, fun hok => hstatus hok.2, rfl⟩)
  · exact .inl ⟨⟨not_not.mp hcode, hpasses⟩, rfl⟩

/-! ### What an answer carries -/

/-- **What an answer carries** for a parse function, by the layout of its return parameters. The
arrays are as they were but for the page, or the codecs, that the answer carries. -/
def ParseFn.carried : {α : Type} → ParseFn α → BtHdr → α
  | _, .genericCommandComplete, _ => ()
  | _, .readBufferSize, packet => (le16At packet.returned 0, le16At packet.returned 3)
  | _, .readLocalVersionInfo, packet =>
    ⟨byteAt packet.returned 0, le16At packet.returned 1, byteAt packet.returned 3,
      le16At packet.returned 4, le16At packet.returned 6⟩
  | _, .readBdAddr, packet => (arrayAt packet.returned 0 6).reverse
  | _, .readLocalSupportedCommands, packet => arrayAt packet.returned 0 64
  | _, .readLocalExtendedFeatures featuresClassic _, packet =>
    ⟨byteAt packet.returned 0, byteAt packet.returned 1,
      featuresClassic.set (byteAt packet.returned 0).toNat (arrayAt packet.returned 2 8)⟩
  | _, .bleReadOffloadFeatures, packet => decide packet.Succeeds
  | _, .bleReadWhiteListSize, packet => byteAt packet.returned 0
  | _, .bleReadBufferSize, packet => (le16At packet.returned 0, byteAt packet.returned 2)
  | _, .bleReadSupportedStates, packet => arrayAt packet.returned 0 8
  | _, .bleReadLocalSupportedFeatures, packet => arrayAt packet.returned 0 8
  | _, .bleReadResolvingListSize, packet => byteAt packet.returned 0
  | _, .bleReadSuggestedDefaultDataLength, packet => le16At packet.returned 0
  | _, .bleReadMaximumAdvertisingDataLength, packet => le16At packet.returned 0
  | _, .bleReadNumberOfSupportedAdvertisingSets, packet => byteAt packet.returned 0
  | _, .readLocalSupportedCodecs localSupportedCodecs _, packet =>
    if packet.Succeeds then
      let number := byteAt packet.returned 0
      some (number, arrayAt packet.returned 1 number.toNat ++
        localSupportedCodecs.drop number.toNat)
    else none

/-- What becomes of a call is safe: it aborts, or it returns, having stored what the answer carries
and freed the response, once. -/
def SafeResult {α : Type} (packet : BtHdr) (carried : α) : Except Stop (Returned α) → Prop
  | .error stop => stop = .assertion
  | .ok r => r.freed = [packet.addr] ∧ r.stored = carried

/-- **A parse function can be handed an answer safely.** -/
def ParseFn.Safe {α : Type} (f : ParseFn α) (packet : BtHdr) : Prop :=
  SafeResult packet (f.carried packet) (f.run packet)

/-- A Read Local Supported Codecs answer with room for its codecs, in its parameters and in the
array. -/
def BtHdr.CodecsFit (packet : BtHdr) : Prop :=
  packet.returned ≠ [] ∧ 1 + (byteAt packet.returned 0).toNat ≤ packet.returned.length ∧
    (byteAt packet.returned 0).toNat ≤ maxLocalSupportedCodecsSize

instance (packet : BtHdr) : Decidable packet.CodecsFit := inferInstanceAs (Decidable (_ ∧ _ ∧ _))

/-- **The answers a parse function can be handed.** -/
def ParseFn.SafeWhen : {α : Type} → ParseFn α → BtHdr → Prop
  | _, .bleReadResolvingListSize, packet =>
    packet.Succeeds ∨ packet.Aborts hciBleReadResolvingListSize 1
  | _, .bleReadMaximumAdvertisingDataLength, packet =>
    packet.Succeeds ∨ packet.Aborts hciLeReadMaximumAdvertisingDataLength 2
  | _, .bleReadNumberOfSupportedAdvertisingSets, packet =>
    packet.Succeeds ∨ packet.Aborts hciLeReadNumberOfSupportedAdvertisingSets 1
  | _, .bleReadSuggestedDefaultDataLength, packet =>
    packet.Aborts hciBleReadDefaultDataLength 2
  | _, .readLocalSupportedCodecs _ _, packet =>
    packet.Succeeds → packet.Aborts hciReadLocalSupportedCodecs 0 ∨ packet.CodecsFit
  | _, _, _ => True

/-! ### The families -/

section Families

variable {α : Type} {packet : BtHdr} {fields : Stream → Except Stop α} {carried : α}
  {expectedOpcode : UInt16} {minimumBytesAfter : ℕ}

/-- A parse function that insists on a stream can be handed every answer, if its fields lie within
the bytes it asks for. -/
theorem safe_parseChecked (h : IsAnswer packet)
    (hfields : minimumBytesAfter ≤ packet.returned.length →
      fields (some packet.returned) = .ok carried ∨
        fields (some packet.returned) = .error .assertion) :
    SafeResult packet carried (parseChecked fields expectedOpcode minimumBytesAfter packet) := by
  rw [parseChecked]
  rcases header_cases h expectedOpcode minimumBytesAfter with
    ⟨-, heq⟩ | ⟨-, -, hlen, heq⟩ | ⟨-, -, heq⟩
  · rw [heq, error_bind]
    rfl
  · rw [heq, ok_bind, assert_bind Option.isSome_some]
    rcases hfields hlen with hok | hstop
    · rw [hok, ok_bind]
      exact ⟨rfl, rfl⟩
    · rw [hstop, error_bind]
      rfl
  · rw [heq, ok_bind, assert_bind_of_not (by simp)]
    rfl

/-- One that does not can be handed those whose header does not give `NULL`. -/
theorem safe_parseUnchecked_iff (h : IsAnswer packet)
    (hfields : minimumBytesAfter ≤ packet.returned.length →
      fields (some packet.returned) = .ok carried)
    (hnull : fields none = .error .null) :
    SafeResult packet carried (parseUnchecked fields expectedOpcode minimumBytesAfter packet) ↔
      packet.Succeeds ∨ packet.Aborts expectedOpcode minimumBytesAfter := by
  rw [parseUnchecked]
  rcases header_cases h expectedOpcode minimumBytesAfter with
    ⟨habort, heq⟩ | ⟨-, hsucc, hlen, heq⟩ | ⟨hno, hfail, heq⟩
  · rw [heq, error_bind]
    exact iff_of_true rfl (.inr habort)
  · rw [heq, ok_bind, hfields hlen, ok_bind]
    exact iff_of_true ⟨rfl, rfl⟩ (.inl hsucc)
  · rw [heq, ok_bind, hnull, error_bind]
    exact iff_of_false (by rintro ⟨⟩) (by rintro (hs | ha); exacts [hfail hs, hno ha])

end Families

/-! ### The parse functions with bodies of their own -/

section Own

variable {packet : BtHdr}

theorem safe_parseGenericCommandComplete (h : IsAnswer packet) :
    SafeResult packet () (parseGenericCommandComplete packet) := by
  rw [parseGenericCommandComplete]
  rcases header_cases h noOpcodeChecking 0 with ⟨-, heq⟩ | ⟨-, -, -, heq⟩ | ⟨-, -, heq⟩
  · rw [heq, error_bind]
    rfl
  · rw [heq, ok_bind]
    exact ⟨rfl, rfl⟩
  · rw [heq, ok_bind]
    exact ⟨rfl, rfl⟩

theorem safe_parseBleReadOffloadFeaturesResponse (h : IsAnswer packet) :
    SafeResult packet (decide packet.Succeeds) (parseBleReadOffloadFeaturesResponse packet) := by
  rw [parseBleReadOffloadFeaturesResponse]
  rcases header_cases h noOpcodeChecking 0 with ⟨-, heq⟩ | ⟨-, hsucc, -, heq⟩ | ⟨-, hfail, heq⟩
  · rw [heq, error_bind]
    rfl
  · rw [heq, ok_bind, decide_eq_true hsucc]
    exact ⟨rfl, rfl⟩
  · rw [heq, ok_bind, decide_eq_false hfail]
    exact ⟨rfl, rfl⟩

/-- The one that keeps the response can only be handed answers it aborts on. -/
theorem safe_parseBleReadSuggestedDefaultDataLengthResponse_iff (h : IsAnswer packet)
    (carried : UInt16) :
    SafeResult packet carried (parseBleReadSuggestedDefaultDataLengthResponse packet) ↔
      packet.Aborts hciBleReadDefaultDataLength 2 := by
  rw [parseBleReadSuggestedDefaultDataLengthResponse]
  rcases header_cases h hciBleReadDefaultDataLength 2 with
    ⟨habort, heq⟩ | ⟨hno, -, hlen, heq⟩ | ⟨hno, -, heq⟩
  · rw [heq, error_bind]
    exact iff_of_true rfl habort
  · rw [heq, ok_bind, readUint8_some (by omega), ok_bind]
    exact iff_of_false (fun hsafe => by cases hsafe.1) hno
  · rw [heq, ok_bind, readUint8, error_bind]
    exact iff_of_false (by rintro ⟨⟩) hno

/-- The codecs of a stream: they are stored when they fit, and otherwise the walk stops outside. -/
theorem codecs_cases {localSupportedCodecs : List UInt8}
    (size : localSupportedCodecs.length = maxLocalSupportedCodecsSize) (packet : BtHdr) :
    let number := (byteAt packet.returned 0).toNat
    let result : Except Stop (Returned (Option (UInt8 × List UInt8))) := do
      let number ← readUint8 (some packet.returned)
      let codecs ← readInto number.1.toNat 0 number.2 localSupportedCodecs
      return ⟨some (number.1, codecs), [packet.addr]⟩
    packet.CodecsFit ∧ result = .ok ⟨some (byteAt packet.returned 0,
        arrayAt packet.returned 1 number ++ localSupportedCodecs.drop number), [packet.addr]⟩ ∨
      ¬ packet.CodecsFit ∧ ∃ stop, result = .error stop ∧ stop ≠ .assertion := by
  intro number result
  by_cases hsome : packet.returned = []
  · refine .inr ⟨fun hfit => hfit.1 hsome, .past, ?_, by decide⟩
    show (readUint8 (some packet.returned) >>= _) = _
    rw [hsome]
    rfl
  · have hpos : 0 < packet.returned.length := List.length_pos_iff.mpr hsome
    have hrest : (packet.returned.drop 1).length = packet.returned.length - 1 :=
      List.length_drop
    have hresult : result = (readInto number 0 (some (packet.returned.drop 1))
        localSupportedCodecs >>= fun codecs =>
          .ok ⟨some (byteAt packet.returned 0, codecs), [packet.addr]⟩) := by
      show (readUint8 (some packet.returned) >>= _) = _
      rw [readUint8_some hpos, ok_bind]
      rfl
    by_cases hfit : packet.CodecsFit
    · obtain ⟨-, hparams, harray⟩ := hfit
      refine .inl ⟨⟨hsome, hparams, harray⟩, ?_⟩
      rw [hresult, readInto_eq (by omega) (by omega), ok_bind, Nat.zero_add, List.take_zero,
        List.nil_append]
      rfl
    · have hout : (packet.returned.drop 1).length < number ∨
          localSupportedCodecs.length < 0 + number := by
        by_contra hin
        exact hfit ⟨hsome, by omega, by omega⟩
      obtain ⟨stop, hstop, hkind⟩ := readInto_of_outside hout (Nat.zero_le _)
      refine .inr ⟨hfit, stop, by rw [hresult, hstop, error_bind], ?_⟩
      rcases hkind with rfl | rfl <;> decide

theorem safe_parseReadLocalSupportedCodecsResponse_iff (h : IsAnswer packet)
    {localSupportedCodecs : List UInt8}
    (size : localSupportedCodecs.length = maxLocalSupportedCodecsSize) :
    (ParseFn.readLocalSupportedCodecs localSupportedCodecs size).Safe packet ↔
      (packet.Succeeds → packet.Aborts hciReadLocalSupportedCodecs 0 ∨ packet.CodecsFit) := by
  rw [ParseFn.Safe, ParseFn.run, ParseFn.carried, parseReadLocalSupportedCodecsResponse]
  rcases header_cases h hciReadLocalSupportedCodecs 0 with
    ⟨habort, heq⟩ | ⟨hno, hsucc, -, heq⟩ | ⟨-, hfail, heq⟩
  · rw [heq, error_bind]
    exact iff_of_true rfl fun _ => .inl habort
  · rw [heq, ok_bind, if_pos Option.isSome_some, if_pos hsucc]
    rcases codecs_cases size packet with ⟨hfit, hok⟩ | ⟨hfit, stop, hstop, hne⟩
    · rw [hok]
      exact iff_of_true ⟨rfl, rfl⟩ fun _ => .inr hfit
    · rw [hstop]
      exact iff_of_false hne fun hwhen => (hwhen hsucc).elim hno hfit
  · rw [heq, ok_bind, if_neg hfail]
    exact iff_of_true ⟨rfl, rfl⟩ fun hsucc => absurd hsucc hfail

end Own

/-! ### All of them -/

/-- The page an answer carries is stored in the page with its number, or the parser aborts. -/
theorem readExtendedFeatures_eq {featuresClassic : List (List UInt8)}
    (size : featuresClassic.length = maxFeaturesClassicPageCount) {bs : List UInt8}
    (hlen : 2 + sizeofBtDeviceFeatures ≤ bs.length) :
    readExtendedFeatures featuresClassic maxFeaturesClassicPageCount (some bs) =
      if (byteAt bs 0).toNat < maxFeaturesClassicPageCount then
        .ok ⟨byteAt bs 0, byteAt bs 1,
          featuresClassic.set (byteAt bs 0).toNat (arrayAt bs 2 8)⟩
      else .error .assertion := by
  have hsize : sizeofBtDeviceFeatures = 8 := rfl
  rw [readExtendedFeatures, readUint8_some (by omega), ok_bind, readUint8_drop (by omega), ok_bind]
  by_cases hpage : (byteAt bs 0).toNat < maxFeaturesClassicPageCount
  · rw [assert_bind hpage, readArray_drop (by omega), ok_bind, if_pos hpage,
      if_pos (by rw [size]; exact hpage)]
    rfl
  · rw [assert_bind_of_not hpage, if_neg hpage]

/-- So the parser can be handed any answer, whatever page it is for. -/
theorem safe_parseReadLocalExtendedFeaturesResponse {packet : BtHdr} (h : IsAnswer packet)
    {featuresClassic : List (List UInt8)}
    (size : featuresClassic.length = maxFeaturesClassicPageCount) :
    (ParseFn.readLocalExtendedFeatures featuresClassic size).Safe packet := by
  refine safe_parseChecked h fun hlen => ?_
  rw [readExtendedFeatures_eq size hlen]
  split_ifs
  · exact .inl rfl
  · exact .inr rfl

/-- **Which answers a parse function can be handed.** -/
theorem ParseFn.safe_iff {α : Type} (f : ParseFn α) {packet : BtHdr} (h : IsAnswer packet) :
    f.Safe packet ↔ f.SafeWhen packet := by
  cases f with
  | genericCommandComplete => exact iff_of_true (safe_parseGenericCommandComplete h) trivial
  | readBufferSize =>
    refine iff_of_true (safe_parseChecked h fun hlen => .inl ?_) trivial
    rw [readUint16_some (by omega), ok_bind, skipUint8_drop, readUint16_drop (by omega)]
    rfl
  | readLocalVersionInfo =>
    refine iff_of_true (safe_parseChecked h fun hlen => .inl ?_) trivial
    rw [readUint8_some (by omega), ok_bind, readUint16_drop (by omega), ok_bind,
      readUint8_drop (by omega), ok_bind, readUint16_drop (by omega), ok_bind,
      readUint16_drop (by omega)]
    rfl
  | readBdAddr =>
    refine iff_of_true (safe_parseChecked h fun hlen => .inl ?_) trivial
    rw [readArray_some hlen]
    rfl
  | readLocalSupportedCommands =>
    refine iff_of_true (safe_parseChecked h fun hlen => .inl ?_) trivial
    rw [readArray_some hlen]
    rfl
  | readLocalExtendedFeatures featuresClassic size =>
    exact iff_of_true (safe_parseReadLocalExtendedFeaturesResponse h size) trivial
  | bleReadOffloadFeatures =>
    exact iff_of_true (safe_parseBleReadOffloadFeaturesResponse h) trivial
  | bleReadWhiteListSize =>
    refine iff_of_true (safe_parseChecked h fun hlen => .inl ?_) trivial
    rw [readUint8_some hlen]
    rfl
  | bleReadBufferSize =>
    refine iff_of_true (safe_parseChecked h fun hlen => .inl ?_) trivial
    rw [readUint16_some (by omega), ok_bind, readUint8_drop (by omega)]
    rfl
  | bleReadSupportedStates =>
    refine iff_of_true (safe_parseChecked h fun hlen => .inl ?_) trivial
    rw [readArray_some hlen]
    rfl
  | bleReadLocalSupportedFeatures =>
    refine iff_of_true (safe_parseChecked h fun hlen => .inl ?_) trivial
    rw [readArray_some hlen]
    rfl
  | bleReadResolvingListSize =>
    refine safe_parseUnchecked_iff h (fun hlen => ?_) rfl
    rw [readUint8_some hlen]
    rfl
  | bleReadSuggestedDefaultDataLength =>
    exact safe_parseBleReadSuggestedDefaultDataLengthResponse_iff h _
  | bleReadMaximumAdvertisingDataLength =>
    refine safe_parseUnchecked_iff h (fun hlen => ?_) rfl
    rw [readUint16_some hlen]
    rfl
  | bleReadNumberOfSupportedAdvertisingSets =>
    refine safe_parseUnchecked_iff h (fun hlen => ?_) rfl
    rw [readUint8_some hlen]
    rfl
  | readLocalSupportedCodecs localSupportedCodecs size =>
    exact safe_parseReadLocalSupportedCodecsResponse_iff h size

/-- The answer to a Read Resolving List Size command, with a list of 16. -/
def resolvingListSixteen : BtHdr := ⟨0, 0, [0x0E, 5, 1, 0x2A, 0x20, 0, 16]⟩

theorem isAnswer_resolvingListSixteen : IsAnswer resolvingListSixteen :=
  ⟨rfl, .inl rfl, rfl, by decide⟩

/-- It can be handed to its parse function. -/
theorem safe_resolvingListSixteen :
    ParseFn.bleReadResolvingListSize.Safe resolvingListSixteen :=
  (ParseFn.bleReadResolvingListSize.safe_iff isAnswer_resolvingListSixteen).mpr (.inl (by decide))

/-- A Command Status for the same command: "unknown HCI command". -/
theorem safe_not_always :
    ¬ ∀ (α : Type) (f : ParseFn α) (packet : BtHdr), IsAnswer packet → f.Safe packet := by
  intro hall
  have h := hall _ .bleReadResolvingListSize ⟨0, 0, [0x0F, 4, 1, 1, 0x2A, 0x20]⟩
    ⟨rfl, .inr rfl, rfl, by decide⟩
  cases h

/-! ### Counted answers -/

/-- Nothing is read or stored outside. -/
def Inside {α : Type} (result : Except Stop α) : Prop :=
  ∀ stop, result = .error stop → stop = .assertion

/-- **Which counted answers stay inside their arrays**, having passed the assertions of the header:
codecs exactly when they fit, pages always. -/
theorem counted_inside_iff {packet : BtHdr} (h : IsAnswer packet) (hsucc : packet.Succeeds) :
    (∀ {localSupportedCodecs : List UInt8}, packet.Passes hciReadLocalSupportedCodecs 0 →
      localSupportedCodecs.length = maxLocalSupportedCodecsSize →
      (Inside (parseReadLocalSupportedCodecsResponse localSupportedCodecs packet) ↔
        packet.CodecsFit)) ∧
    ∀ {featuresClassic : List (List UInt8)},
      packet.Passes hciReadLocalExtFeatures (2 + sizeofBtDeviceFeatures) →
      featuresClassic.length = maxFeaturesClassicPageCount →
      Inside (parseReadLocalExtendedFeaturesResponse featuresClassic maxFeaturesClassicPageCount
        packet) := by
  constructor
  · intro localSupportedCodecs hpasses size
    rcases header_cases h hciReadLocalSupportedCodecs 0 with
      ⟨habort, -⟩ | ⟨-, -, -, heq⟩ | ⟨-, hfail, -⟩
    · exact absurd hpasses habort.2
    · rw [parseReadLocalSupportedCodecsResponse, heq, ok_bind, if_pos Option.isSome_some]
      rcases codecs_cases size packet with ⟨hfit, hok⟩ | ⟨hfit, stop, hstop, hne⟩
      · rw [hok]
        exact iff_of_true (fun stop hstop => by cases hstop) hfit
      · rw [hstop]
        exact iff_of_false (fun hin => hne (hin stop rfl)) hfit
    · exact absurd hsucc hfail
  · intro featuresClassic _ size stop hstop
    have hsafe := safe_parseReadLocalExtendedFeaturesResponse h size
    rw [ParseFn.Safe, ParseFn.run, hstop] at hsafe
    exact hsafe

/-- A Read Local Supported Codecs answer with these codecs. -/
def codecsAnswer (codecs : List UInt8) : BtHdr :=
  ⟨0, 0, [0x0E, 5 + codecs.length.toUInt8, 1, 0x0B, 0x10, 0, codecs.length.toUInt8] ++ codecs⟩

/-- A Read Local Extended Features answer for a page, with no features. -/
def pageAnswer (page maxPage : UInt8) : BtHdr :=
  ⟨0, 0, [0x0E, 14, 1, 0x04, 0x10, 0, page, maxPage] ++ List.replicate 8 0⟩

/-- Two codecs, and the last page of three. -/
theorem counted_inside_two :
    (Inside (parseReadLocalSupportedCodecsResponse (List.replicate 8 0) (codecsAnswer [2, 4])) ↔
      (codecsAnswer [2, 4]).CodecsFit) ∧
    Inside (parseReadLocalExtendedFeaturesResponse (List.replicate 3 []) 3 (pageAnswer 2 2)) :=
  ⟨(counted_inside_iff ⟨rfl, .inl rfl, rfl, by decide⟩ (by decide)).1 (by decide) rfl,
    (counted_inside_iff ⟨rfl, .inl rfl, rfl, by decide⟩ (by decide)).2 (by decide) rfl⟩

/-- Nine codecs, all of them in the parameters: the ninth is stored behind the array. -/
theorem counted_inside_not_always :
    ¬ ∀ (packet : BtHdr) (localSupportedCodecs : List UInt8), IsAnswer packet → packet.Succeeds →
      packet.Passes hciReadLocalSupportedCodecs 0 →
      localSupportedCodecs.length = maxLocalSupportedCodecsSize →
      Inside (parseReadLocalSupportedCodecsResponse localSupportedCodecs packet) := by
  intro hall
  have h := hall (codecsAnswer [1, 2, 3, 4, 5, 6, 7, 8, 9]) (List.replicate 8 0)
    ⟨rfl, .inl rfl, rfl, by decide⟩ (by decide) (by decide) rfl .room rfl
  cases h

end Hci

end A1000

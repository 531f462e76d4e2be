import A1000.Hci.Layer
import A1000.Lib.Walk

/-!
# The parsers of the controller's answers

`hci_packet_parser.cc`: while it starts up, the controller module sends its commands through futures
and hands each answer to the parse function for it. All of them go through
`read_command_complete_header`, which gives the position behind the status of a successful Command
Complete, or `NULL` for an answer that is no Command Complete or that reports an error.

A parse function either returns, with what it has stored through the pointers it was given, or stops
at an assertion, or at a read or a store that C gives no meaning to. What it stores are its values
here, and an array it writes to is given back as it is after the call.

## Main definitions

* `Hci.readCommandCompleteHeader` — the header
* `Hci.parseGenericCommandComplete` and following — the parse functions
* `Hci.ParseFn` — all of them, as `start_up` applies them
-/

namespace A1000

namespace Hci

open Walk

/-! ### Constants of `hcidefs.h` -/

def hciSuccess : UInt8 := 0x00

/-- `NO_OPCODE_CHECKING`. -/
def noOpcodeChecking : UInt16 := 0x0000

def hciReadLocalVersionInfo : UInt16 := 0x1001
def hciReadLocalSupportedCmds : UInt16 := 0x1002
def hciReadLocalExtFeatures : UInt16 := 0x1004
def hciReadBufferSize : UInt16 := 0x1005
def hciReadBdAddr : UInt16 := 0x1009
def hciReadLocalSupportedCodecs : UInt16 := 0x100B
def hciBleReadBufferSize : UInt16 := 0x2002
def hciBleReadLocalSptFeat : UInt16 := 0x2003
def hciBleReadWhiteListSize : UInt16 := 0x200F
def hciBleReadSupportedStates : UInt16 := 0x201C
def hciBleReadDefaultDataLength : UInt16 := 0x2023
def hciBleReadResolvingListSize : UInt16 := 0x202A
def hciLeReadMaximumAdvertisingDataLength : UInt16 := 0x203A
def hciLeReadNumberOfSupportedAdvertisingSets : UInt16 := 0x203B

/-- `sizeof(bt_device_features_t)`. -/
def sizeofBtDeviceFeatures : ℕ := 8

/-- `RawAddress::kLength`. -/
def rawAddressLength : ℕ := 6

/-! ### The header -/

/-- What a parse function has done when it returns: what it has stored, and the buffers it has
freed. -/
structure Returned (α : Type) where
  stored : α
  freed : List ℕ
  deriving DecidableEq, Repr

/-- The stream up to the end of the event's parameters. -/
def declared (parameterLength : UInt8) (stream : Stream) : Stream :=
  stream.map fun s => s.take parameterLength.toNat

/-- `read_command_complete_header`. -/
def readCommandCompleteHeader (response : BtHdr) (expectedOpcode : UInt16)
    (minimumBytesAfter : ℕ) : Except Stop Stream := do
  -- read the event header
  let eventCode ← readUint8 (some (response.data.drop response.offset))
  let parameterLength ← readUint8 eventCode.2
  if eventCode.1 ≠ hciCommandCompleteEvt then
    return none
  assert (4 + minimumBytesAfter ≤ parameterLength.1.toNat)
  -- read the command complete header, skipping the number of hci command packets field
  let opcode ← readUint16 (skipUint8 (declared parameterLength.1 parameterLength.2))
  assert (expectedOpcode = noOpcodeChecking ∨ opcode.1 = expectedOpcode)
  -- assume the next field is the status field
  let status ← readUint8 opcode.2
  if status.1 ≠ hciSuccess then
    return none
  return status.2

/-! ### The two families -/

section Families

variable {α : Type}

/-- A parse function that insists on a stream, reads its fields from it and frees the response. -/
def parseChecked (fields : Stream → Except Stop α) (expectedOpcode : UInt16)
    (minimumBytesAfter : ℕ) (response : BtHdr) : Except Stop (Returned α) := do
  let stream ← readCommandCompleteHeader response expectedOpcode minimumBytesAfter
  assert stream.isSome
  let stored ← fields stream
  return ⟨stored, [response.addr]⟩

/-- One that does not look whether there is a stream. -/
def parseUnchecked (fields : Stream → Except Stop α) (expectedOpcode : UInt16)
    (minimumBytesAfter : ℕ) (response : BtHdr) : Except Stop (Returned α) := do
  let stream ← readCommandCompleteHeader response expectedOpcode minimumBytesAfter
  let stored ← fields stream
  return ⟨stored, [response.addr]⟩

end Families

/-! ### The parse functions -/

/-- `parse_generic_command_complete`. -/
def parseGenericCommandComplete (response : BtHdr) : Except Stop (Returned Unit) := do
  let _ ← readCommandCompleteHeader response noOpcodeChecking 0
  return ⟨(), [response.addr]⟩

/-- `parse_read_buffer_size_response`: the data size and the number of buffers. -/
def parseReadBufferSizeResponse : BtHdr → Except Stop (Returned (UInt16 × UInt16)) :=
  parseChecked (fun stream => do
    let dataSize ← readUint16 stream
    -- skip the sco packet length
    let aclBufferCount ← readUint16 (skipUint8 dataSize.2)
    return (dataSize.1, aclBufferCount.1)) hciReadBufferSize 5

/-- `bt_version_t`. -/
structure BtVersion where
  hciVersion : UInt8
  hciRevision : UInt16
  lmpVersion : UInt8
  manufacturer : UInt16
  lmpSubversion : UInt16
  deriving DecidableEq, Repr

/-- `parse_read_local_version_info_response`. -/
def parseReadLocalVersionInfoResponse : BtHdr → Except Stop (Returned BtVersion) :=
  parseChecked (fun stream => do
    let hciVersion ← readUint8 stream
    let hciRevision ← readUint16 hciVersion.2
    let lmpVersion ← readUint8 hciRevision.2
    let manufacturer ← readUint16 lmpVersion.2
    let lmpSubversion ← readUint16 manufacturer.2
    return ⟨hciVersion.1, hciRevision.1, lmpVersion.1, manufacturer.1, lmpSubversion.1⟩)
    hciReadLocalVersionInfo 8

/-- `parse_read_local_supported_codecs_response`: the number of codecs, and the caller's array after
the loop; nothing when there is no stream. -/
def parseReadLocalSupportedCodecsResponse (localSupportedCodecs : List UInt8) (response : BtHdr) :
    Except Stop (Returned (Option (UInt8 × List UInt8))) := do
  let stream ← readCommandCompleteHeader response hciReadLocalSupportedCodecs 0
  if stream.isSome then
    let number ← readUint8 stream
    let codecs ← readInto number.1.toNat 0 number.2 localSupportedCodecs
    return ⟨some (number.1, codecs), [response.addr]⟩
  else
    return ⟨none, [response.addr]⟩

/-- `parse_ble_read_offload_features_response`. -/
def parseBleReadOffloadFeaturesResponse (response : BtHdr) : Except Stop (Returned Bool) := do
  let stream ← readCommandCompleteHeader response noOpcodeChecking 0
  return ⟨stream.isSome, [response.addr]⟩

/-- `parse_read_bd_addr_response`; an address is stored with its bytes reversed. -/
def parseReadBdAddrResponse : BtHdr → Except Stop (Returned (List UInt8)) :=
  parseChecked (fun stream => do
    let address ← readArray rawAddressLength stream
    return address.1.reverse) hciReadBdAddr rawAddressLength

/-- `parse_read_local_supported_commands_response`. -/
def parseReadLocalSupportedCommandsResponse (supportedCommandsLength : ℕ) :
    BtHdr → Except Stop (Returned (List UInt8)) :=
  parseChecked (fun stream => do
    let supportedCommands ← readArray supportedCommandsLength stream
    return supportedCommands.1) hciReadLocalSupportedCmds supportedCommandsLength

/-- What `parse_read_local_extended_features_response` stores. -/
structure ExtendedFeatures where
  pageNumber : UInt8
  maxPageNumber : UInt8
  /-- The caller's array of pages, after the call. -/
  featurePages : List (List UInt8)
  deriving DecidableEq, Repr

/-- The fields of a Read Local Extended Features response. -/
def readExtendedFeatures (featurePages : List (List UInt8)) (featurePagesCount : ℕ)
    (stream : Stream) : Except Stop ExtendedFeatures := do
  let pageNumber ← readUint8 stream
  let maxPageNumber ← readUint8 pageNumber.2
  assert (pageNumber.1.toNat < featurePagesCount)
  let features ← readArray sizeofBtDeviceFeatures maxPageNumber.2
  if pageNumber.1.toNat < featurePages.length then
    return ⟨pageNumber.1, maxPageNumber.1, featurePages.set pageNumber.1.toNat features.1⟩
  else
    throw .room

/-- `parse_read_local_extended_features_response`. -/
def parseReadLocalExtendedFeaturesResponse (featurePages : List (List UInt8))
    (featurePagesCount : ℕ) : BtHdr → Except Stop (Returned ExtendedFeatures) :=
  parseChecked (readExtendedFeatures featurePages featurePagesCount) hciReadLocalExtFeatures
    (2 + sizeofBtDeviceFeatures)

/-- `parse_ble_read_white_list_size_response`. -/
def parseBleReadWhiteListSizeResponse : BtHdr → Except Stop (Returned UInt8) :=
  parseChecked (fun stream => do
    let whiteListSize ← readUint8 stream
    return whiteListSize.1) hciBleReadWhiteListSize 1

/-- `parse_ble_read_buffer_size_response`. -/
def parseBleReadBufferSizeResponse : BtHdr → Except Stop (Returned (UInt16 × UInt8)) :=
  parseChecked (fun stream => do
    let dataSize ← readUint16 stream
    let aclBufferCount ← readUint8 dataSize.2
    return (dataSize.1, aclBufferCount.1)) hciBleReadBufferSize 3

/-- `parse_ble_read_supported_states_response`. -/
def parseBleReadSupportedStatesResponse (supportedStatesSize : ℕ) :
    BtHdr → Except Stop (Returned (List UInt8)) :=
  parseChecked (fun stream => do
    let supportedStates ← readArray supportedStatesSize stream
    return supportedStates.1) hciBleReadSupportedStates supportedStatesSize

/-- `parse_ble_read_local_supported_features_response`. -/
def parseBleReadLocalSupportedFeaturesResponse : BtHdr → Except Stop (Returned (List UInt8)) :=
  parseChecked (fun stream => do
    let supportedFeatures ← readArray sizeofBtDeviceFeatures stream
    return supportedFeatures.1) hciBleReadLocalSptFeat sizeofBtDeviceFeatures

/-- `parse_ble_read_resolving_list_size_response`. -/
def parseBleReadResolvingListSizeResponse : BtHdr → Except Stop (Returned UInt8) :=
  parseUnchecked (fun stream => do
    let resolvingListSize ← readUint8 stream
    return resolvingListSize.1) hciBleReadResolvingListSize 1

/-- `parse_ble_read_suggested_default_data_length_response`: it reads one byte, and it does not free
the response. -/
def parseBleReadSuggestedDefaultDataLengthResponse (response : BtHdr) :
    Except Stop (Returned UInt16) := do
  let stream ← readCommandCompleteHeader response hciBleReadDefaultDataLength 2
  let bleDefaultPacketLength ← readUint8 stream
  return ⟨bleDefaultPacketLength.1.toUInt16, []⟩

/-- `parse_ble_read_maximum_advertising_data_length`. -/
def parseBleReadMaximumAdvertisingDataLength : BtHdr → Except Stop (Returned UInt16) :=
  parseUnchecked (fun stream => do
    let bleMaximumAdvertisingDataLength ← readUint16 stream
    return bleMaximumAdvertisingDataLength.1) hciLeReadMaximumAdvertisingDataLength 2

/-- `parse_ble_read_number_of_supported_advertising_sets`. -/
def parseBleReadNumberOfSupportedAdvertisingSets : BtHdr → Except Stop (Returned UInt8) :=
  parseUnchecked (fun stream => do
    let bleNumberOfSupportedAdvertisingSets ← readUint8 stream
    return bleNumberOfSupportedAdvertisingSets.1) hciLeReadNumberOfSupportedAdvertisingSets 1

/-! ### As the controller module applies them -/

/-! The sizes of `controller.cc`. -/

def hciSupportedCommandsArraySize : ℕ := 64
def maxFeaturesClassicPageCount : ℕ := 3
def bleSupportedStatesSize : ℕ := 8
def maxLocalSupportedCodecsSize : ℕ := 8

/-- The parse functions, with the arrays `start_up` has them fill. -/
inductive ParseFn : Type → Type
  | genericCommandComplete : ParseFn Unit
  | readBufferSize : ParseFn (UInt16 × UInt16)
  | readLocalVersionInfo : ParseFn BtVersion
  | readBdAddr : ParseFn (List UInt8)
  | readLocalSupportedCommands : ParseFn (List UInt8)
  | readLocalExtendedFeatures (featuresClassic : List (List UInt8))
      (size : featuresClassic.length = maxFeaturesClassicPageCount) : ParseFn ExtendedFeatures
  | bleReadOffloadFeatures : ParseFn Bool
  | bleReadWhiteListSize : ParseFn UInt8
  | bleReadBufferSize : ParseFn (UInt16 × UInt8)
  | bleReadSupportedStates : ParseFn (List UInt8)
  | bleReadLocalSupportedFeatures : ParseFn (List UInt8)
  | bleReadResolvingListSize : ParseFn UInt8
  | bleReadSuggestedDefaultDataLength : ParseFn UInt16
  | bleReadMaximumAdvertisingDataLength : ParseFn UInt16
  | bleReadNumberOfSupportedAdvertisingSets : ParseFn UInt8
  | readLocalSupportedCodecs (localSupportedCodecs : List UInt8)
      (size : localSupportedCodecs.length = maxLocalSupportedCodecsSize) :
      ParseFn (Option (UInt8 × List UInt8))

/-- The call. -/
def ParseFn.run : {α : Type} → ParseFn α → BtHdr → Except Stop (Returned α)
  | _, .genericCommandComplete => parseGenericCommandComplete
  | _, .readBufferSize => parseReadBufferSizeResponse
  | _, .readLocalVersionInfo => parseReadLocalVersionInfoResponse
  | _, .readBdAddr => parseReadBdAddrResponse
  | _, .readLocalSupportedCommands =>
    parseReadLocalSupportedCommandsResponse hciSupportedCommandsArraySize
  | _, .readLocalExtendedFeatures featuresClassic _ =>
    parseReadLocalExtendedFeaturesResponse featuresClassic maxFeaturesClassicPageCount
  | _, .bleReadOffloadFeatures => parseBleReadOffloadFeaturesResponse
  | _, .bleReadWhiteListSize => parseBleReadWhiteListSizeResponse
  | _, .bleReadBufferSize => parseBleReadBufferSizeResponse
  | _, .bleReadSupportedStates => parseBleReadSupportedStatesResponse bleSupportedStatesSize
  | _, .bleReadLocalSupportedFeatures => parseBleReadLocalSupportedFeaturesResponse
  | _, .bleReadResolvingListSize => parseBleReadResolvingListSizeResponse
  | _, .bleReadSuggestedDefaultDataLength => parseBleReadSuggestedDefaultDataLengthResponse
  | _, .bleReadMaximumAdvertisingDataLength => parseBleReadMaximumAdvertisingDataLength
  | _, .bleReadNumberOfSupportedAdvertisingSets => parseBleReadNumberOfSupportedAdvertisingSets
  | _, .readLocalSupportedCodecs localSupportedCodecs _ =>
    parseReadLocalSupportedCodecsResponse localSupportedCodecs

end Hci

end A1000

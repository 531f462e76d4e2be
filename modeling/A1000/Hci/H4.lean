import A1000.Lib.Bytes
import A1000.Lib.Framing
import Mathlib.Data.List.GetD

/-!
# Receiving H4 packets

On the serial line each packet of the controller is preceded by a byte that says of which type it
is. `H4Protocol` reads the type byte itself and leaves the rest of the packet to the packetizer,
which is not part of the repository. A byte that is no type is skipped: the controller leaves the
tail of an answer in the channel.

## Main definitions

* `H4.onDataReady`, `H4.onPacketReady` — the two callbacks of `H4Protocol`
* `H4.Item` — what a stream consists of: packets and junk
* `H4.Packetizes` — what is relied upon of the packetizer
* `H4.hciPacketizer` — a packetizer for the packets of HCI

## Main results

* `H4.readsWord` — how `H4Protocol` reads a packet, and a byte of junk
* `H4.resync` — the packets are delivered, and nothing else
* `H4.packetizes_hci` — `hciPacketizer` is such a packetizer
-/

namespace A1000

namespace H4

open Bytes Framing StepSystem

/-! ### The protocol -/

def HCI_PACKET_TYPE_UNKNOWN : UInt8 := 0

def HCI_PACKET_TYPE_ACL_DATA : UInt8 := 2

def HCI_PACKET_TYPE_SCO_DATA : UInt8 := 3

def HCI_PACKET_TYPE_EVENT : UInt8 := 4

/-- The callbacks that `H4Protocol` is constructed with. -/
inductive Callback where
  | event_cb
  | acl_cb
  | sco_cb
  deriving DecidableEq, Repr

/-- `HciPacketizer::OnDataReady` for a packet of a type; what it delivers is what `GetPacket`
returns when it calls `OnPacketReady`. -/
abbrev Packetizer (σ : Type*) := UInt8 → Reader σ UInt8 Bytes

/-- The fields of `H4Protocol`. -/
structure H4Protocol (σ : Type*) where
  hciPacketType : UInt8
  hciPacketizer : σ
  deriving DecidableEq, Repr

variable {σ : Type*}

/-- `H4Protocol::OnPacketReady`: the type that is next, and the callback that is called; `none` is
`LOG_ALWAYS_FATAL`. -/
def onPacketReady (hciPacketType : UInt8) (packet : Bytes) : Option (UInt8 × Callback × Bytes) :=
  if hciPacketType = HCI_PACKET_TYPE_EVENT then
    some (HCI_PACKET_TYPE_UNKNOWN, .event_cb, packet)
  else if hciPacketType = HCI_PACKET_TYPE_ACL_DATA then
    some (HCI_PACKET_TYPE_UNKNOWN, .acl_cb, packet)
  else if hciPacketType = HCI_PACKET_TYPE_SCO_DATA then
    some (HCI_PACKET_TYPE_UNKNOWN, .sco_cb, packet)
  else none

/-- `H4Protocol::OnDataReady`; the file gives `avail`, and its end when that is empty. `none` is
`LOG_ALWAYS_FATAL`. -/
def onDataReady (packetizer : Packetizer σ) : Reader (H4Protocol σ) UInt8 (Callback × Bytes) :=
  fun s avail =>
    if s.hciPacketType = HCI_PACKET_TYPE_UNKNOWN then
      match avail with
      | [] => none
      | buffer :: _ =>
        if buffer ≠ HCI_PACKET_TYPE_ACL_DATA ∧ buffer ≠ HCI_PACKET_TYPE_SCO_DATA ∧
            buffer ≠ HCI_PACKET_TYPE_EVENT then
          some ⟨1, { s with hciPacketType := HCI_PACKET_TYPE_UNKNOWN }, none⟩
        else some ⟨1, { s with hciPacketType := buffer }, none⟩
    else
      match packetizer s.hciPacketType s.hciPacketizer avail with
      | none => none
      | some ⟨n, st, none⟩ => some ⟨n, { s with hciPacketizer := st }, none⟩
      | some ⟨n, st, some packet⟩ =>
        (onPacketReady s.hciPacketType packet).map fun (t, call) => ⟨n, ⟨t, st⟩, some call⟩

/-! ### Streams of packets and junk -/

/-- The types of the packets that the controller sends. -/
def IsType (t : UInt8) : Prop :=
  t = HCI_PACKET_TYPE_ACL_DATA ∨ t = HCI_PACKET_TYPE_SCO_DATA ∨ t = HCI_PACKET_TYPE_EVENT

instance (t : UInt8) : Decidable (IsType t) :=
  inferInstanceAs (Decidable (t = _ ∨ t = _ ∨ t = _))

/-- The callback of a type. -/
def callback (t : UInt8) : Callback :=
  if t = HCI_PACKET_TYPE_EVENT then .event_cb
  else if t = HCI_PACKET_TYPE_ACL_DATA then .acl_cb
  else .sco_cb

/-- What comes down the line: a byte of junk, or a packet of a type. -/
inductive Item where
  | junk (b : UInt8)
  | packet (t : UInt8) (body : Bytes)
  deriving DecidableEq, Repr

/-- The bytes of an item. -/
def Item.bytes : Item → Bytes
  | .junk b => [b]
  | .packet t body => t :: body

/-- A packet goes to the callback of its type, junk nowhere. -/
def Item.delivery : Item → Option (Callback × Bytes)
  | .junk _ => none
  | .packet t body => some (callback t, body)

/-- Junk is no type, and a packet is complete: preamble and payload. -/
def Item.Ok (Packet : UInt8 → Bytes → Prop) : Item → Prop
  | .junk b => ¬ IsType b
  | .packet t body => IsType t ∧ Packet t body

/-- The bytes of a stream. -/
abbrev stream (items : List Item) : Bytes := items.flatMap Item.bytes

/-- **What is relied upon of the packetizer**: it reads each packet over as many calls as it takes,
and calls `OnPacketReady` at its last byte only. -/
structure Packetizes (packetizer : Packetizer σ) (Packet : UInt8 → Bytes → Prop)
    (Between : σ → Prop) (After : UInt8 → Bytes → σ → Prop) : Prop where
  reads : ∀ {t body}, IsType t → Packet t body →
    ReadsWord (packetizer t) Between (After t) body (some body)

/-! ### Reading one item -/

variable {packetizer : Packetizer σ} {Packet : UInt8 → Bytes → Prop} {Between : σ → Prop}
  {After : UInt8 → Bytes → σ → Prop}

/-- `H4Protocol` between two items. -/
structure Idle (Between : σ → Prop) (s : H4Protocol σ) : Prop where
  unknown : s.hciPacketType = HCI_PACKET_TYPE_UNKNOWN
  between : Between s.hciPacketizer

/-- `H4Protocol` when the beginning `u` of an item has been read. -/
def Inside (Between : σ → Prop) (After : UInt8 → Bytes → σ → Prop) (i : Item) (u : Bytes)
    (s : H4Protocol σ) : Prop :=
  match u with
  | [] => Idle Between s
  | t :: u => (∃ body, i = .packet t body) ∧ s.hciPacketType = t ∧ After t u s.hciPacketizer

theorem isType_ne_unknown {t : UInt8} (h : IsType t) : t ≠ HCI_PACKET_TYPE_UNKNOWN := by
  rcases h with rfl | rfl | rfl <;> decide

theorem isType_iff (t : UInt8) :
    IsType t ↔ ¬ (t ≠ HCI_PACKET_TYPE_ACL_DATA ∧ t ≠ HCI_PACKET_TYPE_SCO_DATA ∧
      t ≠ HCI_PACKET_TYPE_EVENT) := by
  simp only [IsType]
  tauto

/-- `OnPacketReady` knows each type. -/
theorem onPacketReady_of_isType {t : UInt8} (h : IsType t) (packet : Bytes) :
    onPacketReady t packet = some (HCI_PACKET_TYPE_UNKNOWN, callback t, packet) := by
  rcases h with rfl | rfl | rfl <;> rfl

/-- The type byte. -/
theorem onDataReady_unknown {s : H4Protocol σ} (hs : s.hciPacketType = HCI_PACKET_TYPE_UNKNOWN)
    (b : UInt8) (avail : Bytes) :
    onDataReady packetizer s (b :: avail) =
      some ⟨1, { s with hciPacketType := if IsType b then b else HCI_PACKET_TYPE_UNKNOWN },
        none⟩ := by
  simp only [onDataReady, if_pos hs, isType_iff, ite_not]
  split <;> rfl

/-- The rest of the packet. -/
theorem onDataReady_isType {s : H4Protocol σ} (hs : IsType s.hciPacketType) {avail : Bytes}
    {r : Took σ Bytes} (hr : packetizer s.hciPacketType s.hciPacketizer avail = some r) :
    onDataReady packetizer s avail =
      some ⟨r.count, ⟨if r.delivered.isSome then HCI_PACKET_TYPE_UNKNOWN else s.hciPacketType,
        r.state⟩, r.delivered.map fun packet => (callback s.hciPacketType, packet)⟩ := by
  obtain ⟨n, st, d⟩ := r
  simp only [onDataReady, if_neg (isType_ne_unknown hs), hr]
  cases d with
  | none => rfl
  | some packet =>
    simp only [onPacketReady_of_isType hs]
    rfl

/-- **How an item is read.** -/
theorem readsWord (h : Packetizes packetizer Packet Between After) {i : Item} (hi : i.Ok Packet) :
    ReadsWord (onDataReady packetizer) (Idle Between) (Inside Between After i) i.bytes
      i.delivery where
  ne_nil := by cases i <;> exact List.cons_ne_nil _ _
  start hs := hs
  more := by
    intro u v avail rest s hword hv havail hbegin hafter
    cases u with
    | nil =>
      -- the type byte, or junk: one byte is read whatever is available
      obtain ⟨hunknown, hbetween⟩ := hafter
      rw [List.nil_append] at hword
      subst hword
      obtain ⟨b, avail, rfl⟩ := List.exists_cons_of_ne_nil havail
      refine ⟨_, onDataReady_unknown hunknown b avail, le_rfl, by simp, ?_⟩
      cases i with
      | junk c =>
        obtain rfl : b = c := (List.cons_prefix_cons.mp hbegin).1
        refine .inr ⟨rfl, rfl, ?_, hbetween⟩
        rw [if_neg hi]
      | packet t body =>
        obtain rfl : b = t := (List.cons_prefix_cons.mp hbegin).1
        obtain ⟨htype, hpacket⟩ := hi
        have hbody := h.reads htype hpacket
        have hpos := List.length_pos_iff.mpr hbody.ne_nil
        refine .inl ⟨by simpa [Item.bytes] using hpos, rfl, ⟨body, rfl⟩, ?_, ?_⟩
        · rw [if_pos htype]
        · exact hbody.start hbetween
    | cons b u =>
      -- inside a packet: the packetizer
      obtain ⟨⟨body, rfl⟩, htype', hafter⟩ := hafter
      obtain ⟨htype, hpacket⟩ := hi
      obtain ⟨-, rfl⟩ : b = b ∧ body = u ++ v := by simpa [Item.bytes] using hword
      obtain ⟨r, hr, hpos, hcount, hpart⟩ :=
        (h.reads htype hpacket).more rfl hv havail hbegin hafter
      rw [← htype'] at htype hr
      refine ⟨_, onDataReady_isType htype hr, hpos, hcount, ?_⟩
      rcases hpart with ⟨hlt, hnone, hafter'⟩ | ⟨heq, hsome, hidle⟩
      · refine .inl ⟨hlt, by rw [hnone]; rfl, ⟨_, rfl⟩, ?_, hafter'⟩
        simpa [hnone] using htype'
      · refine .inr ⟨heq, by rw [hsome, htype']; rfl, ?_, hidle⟩
        simp [hsome]

/-! ### Reading a stream -/

/-- **The packets of a stream are delivered, and nothing else**, in order, each once and to the
callback of its type, however many bytes are available at each call. -/
theorem resync (h : Packetizes packetizer Packet Between After) {items : List Item}
    (ok : ∀ i ∈ items, i.Ok Packet) {st : σ} (between : Between st)
    {tr : List (ℕ × Option (Callback × Bytes))} {s : Input (H4Protocol σ) UInt8}
    (run : Run (step (onDataReady packetizer)) ⟨⟨HCI_PACKET_TYPE_UNKNOWN, st⟩, stream items⟩
      tr s) :
    delivered tr <+: items.filterMap Item.delivery ∧
    (s.unread = [] → delivered tr = items.filterMap Item.delivery ∧
      s.state.hciPacketType = HCI_PACKET_TYPE_UNKNOWN) ∧
    (∀ n, 1 ≤ n → n ≤ s.unread.length → ∃ t o,
      step (onDataReady packetizer) s n = some (t, o) ∧ t.unread.length < s.unread.length) ∧
    tr.length ≤ (stream items).length := by
  have reads : ∀ i ∈ items, ReadsWord (onDataReady packetizer) (Idle Between)
      (Inside Between After i) i.bytes i.delivery := fun i hi => readsWord h (ok i hi)
  have hidle : Idle Between (⟨HCI_PACKET_TYPE_UNKNOWN, st⟩ : H4Protocol σ) := ⟨rfl, between⟩
  have hfollows := run_follows reads hidle run
  refine ⟨hfollows.delivered_isPrefix, fun hs => ?_, fun n hn hle => hfollows.progress reads hn hle,
    ?_⟩
  · obtain ⟨hall, hidle⟩ := hfollows.delivered_eq reads hs
    exact ⟨hall, hidle.unknown⟩
  · exact le_trans (Nat.le_add_right ..) hfollows.calls

/-! ### The packets of HCI -/

/-- The number of bytes before the payload. -/
def preambleSize (t : UInt8) : ℕ :=
  if t = HCI_PACKET_TYPE_EVENT then 2 else if t = HCI_PACKET_TYPE_ACL_DATA then 4 else 3

/-- The length of the payload, which stands in the preamble. -/
def payloadLength (t : UInt8) (preamble : Bytes) : ℕ :=
  if t = HCI_PACKET_TYPE_EVENT then (preamble.getD 1 0).toNat
  else if t = HCI_PACKET_TYPE_ACL_DATA then
    (preamble.getD 2 0).toNat + 256 * (preamble.getD 3 0).toNat
  else (preamble.getD 2 0).toNat

/-- A preamble and its payload. -/
def HciPacket (t : UInt8) (body : Bytes) : Prop :=
  body.length = preambleSize t + payloadLength t body

instance (t : UInt8) (body : Bytes) : Decidable (HciPacket t body) :=
  inferInstanceAs (Decidable (_ = _))

instance (i : Item) : Decidable (i.Ok HciPacket) :=
  match i with
  | .junk b => inferInstanceAs (Decidable (¬ IsType b))
  | .packet t body => inferInstanceAs (Decidable (IsType t ∧ HciPacket t body))

/-- A packetizer that collects the preamble first, then the payload. -/
def hciPacketizer : Packetizer Bytes := fun t got avail =>
  let want := if got.length < preambleSize t then preambleSize t
    else preambleSize t + payloadLength t got
  let n := min (want - got.length) avail.length
  let packet := got ++ avail.take n
  if avail = [] then none
  else if preambleSize t ≤ packet.length ∧ HciPacket t packet then some ⟨n, [], some packet⟩
  else some ⟨n, packet, none⟩

/-- The preamble determines the length of the payload. -/
theorem payloadLength_append {t : UInt8} {u : Bytes} (h : preambleSize t ≤ u.length) (v : Bytes) :
    payloadLength t (u ++ v) = payloadLength t u := by
  unfold preambleSize at h
  unfold payloadLength
  split
  · rw [if_pos ‹_›] at h
    rw [List.getD_append _ _ _ _ (by omega)]
  · rw [if_neg ‹_›] at h
    split
    · rw [if_pos ‹_›] at h
      rw [List.getD_append _ _ _ _ (by omega), List.getD_append _ _ _ _ (by omega)]
    · rw [if_neg ‹_›] at h
      rw [List.getD_append _ _ _ _ (by omega)]

theorem preambleSize_pos (t : UInt8) : 0 < preambleSize t := by
  unfold preambleSize
  split <;> [decide; split <;> decide]

/-- A packet has been read when its last byte has. -/
theorem hciPacket_take_iff {t : UInt8} {u v : Bytes} (h : HciPacket t (u ++ v)) {n : ℕ}
    (hn : n ≤ v.length) :
    preambleSize t ≤ (u ++ v.take n).length ∧ HciPacket t (u ++ v.take n) ↔ n = v.length := by
  constructor
  · rintro ⟨hle, hpacket⟩
    have hpayload := payloadLength_append hle (v.drop n)
    rw [List.append_assoc, List.take_append_drop] at hpayload
    rw [HciPacket, ← hpayload, ← h, List.length_append, List.length_append,
      List.length_take_of_le hn] at hpacket
    omega
  · rintro rfl
    rw [List.take_length]
    exact ⟨by rw [h]; exact Nat.le_add_right .., h⟩

/-- `hciPacketizer` reads the packets of HCI. -/
theorem packetizes_hci :
    Packetizes hciPacketizer HciPacket (· = []) (fun _ u got => got = u) where
  reads := by
    intro t body _ hbody
    have hsize := preambleSize_pos t
    refine ⟨?_, fun hs => hs, ?_⟩
    · rintro rfl
      simp only [HciPacket, List.length_nil] at hbody
      omega
    · rintro u v avail rest got rfl hv havail hbegin rfl
      have hvpos := List.length_pos_iff.mpr hv
      have hapos := List.length_pos_iff.mpr havail
      set want := if got.length < preambleSize t then preambleSize t
        else preambleSize t + payloadLength t got with hwant
      -- the part of the packet that is asked for is neither empty nor too much
      have hbounds : got.length < want ∧ want ≤ (got ++ v).length := by
        rw [List.length_append]
        split at hwant
        · have hle : preambleSize t ≤ (got ++ v).length := by
            rw [hbody]
            exact Nat.le_add_right ..
          rw [List.length_append] at hle
          omega
        · have hpayload := payloadLength_append (t := t) (u := got) (by omega) v
          rw [HciPacket, hpayload, List.length_append] at hbody
          omega
      rw [List.length_append] at hbounds
      set n := min (want - got.length) avail.length with hn
      have htake : avail.take n = v.take n := by
        obtain ⟨w, hw⟩ := hbegin
        have := congrArg (List.take n) hw
        rwa [List.take_append_of_le_length (by omega), List.take_append_of_le_length (by omega)]
          at this
      have hread : hciPacketizer t got avail =
          if n = v.length then some ⟨n, [], some (got ++ v.take n)⟩
          else some ⟨n, got ++ v.take n, none⟩ := by
        simp only [hciPacketizer, ← hwant, ← hn, if_neg havail, htake]
        exact if_congr (hciPacket_take_iff hbody (by omega)) rfl rfl
      have hpos : 1 ≤ n := by omega
      have hcount : n ≤ avail.length := by omega
      have hle : n ≤ v.length := by omega
      by_cases hlast : n = v.length
      · rw [if_pos hlast] at hread
        refine ⟨_, hread, hpos, hcount, .inr ⟨hlast, ?_, rfl⟩⟩
        rw [hlast, List.take_length]
      · rw [if_neg hlast] at hread
        exact ⟨_, hread, hpos, hcount, .inl ⟨lt_of_le_of_ne hle hlast, rfl, rfl⟩⟩

set_option synthInstance.maxSize 512 in
/-- Junk before, between and after an event and some ACL data, read a few bytes at a time. -/
theorem resync_mixed :
    let items : List Item := [.junk 0xff, .packet 4 [0x0e, 1, 2], .junk 0, .junk 1,
      .packet 2 [0x01, 0x20, 2, 0, 4, 3], .junk 5]
    let tr : List (ℕ × Option (Callback × Bytes)) := [(9, none), (1, none), (1, none), (4, none),
      (2, some (.event_cb, [0x0e, 1, 2])), (1, none), (3, none), (2, none), (3, none), (1, none),
      (1, none), (2, some (.acl_cb, [0x01, 0x20, 2, 0, 4, 3])), (1, none)]
    delivered tr <+: items.filterMap Item.delivery ∧ delivered tr = items.filterMap Item.delivery :=
  by
  intro items tr
  have hok : ∀ i ∈ items, i.Ok HciPacket := by decide
  have hexec : exec (step (onDataReady hciPacketizer)) (fun _ _ => True)
      ⟨⟨HCI_PACKET_TYPE_UNKNOWN, []⟩, stream items⟩ (tr.map Prod.fst) =
        some (tr, ⟨⟨HCI_PACKET_TYPE_UNKNOWN, []⟩, []⟩) := by
    decide
  have hresync := resync packetizes_hci hok rfl (run_of_exec hexec)
  exact ⟨hresync.1, (hresync.2.1 rfl).1⟩

end H4

end A1000

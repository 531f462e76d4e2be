import A1000.Lib.Handles
import A1000.Lib.Slots
import A1000.Shim.Recolor

/-!
# The table of physical addresses

`_sprdcolor_record` keeps a descriptor of its own for every physical address it is told about, so
that a buffer stays what it is for as long as the table refers to it. The caller closes its
descriptor at once and the number is given out again; the one the table keeps must be closed by
nobody else, and by the table once.

The rest of the process opens and closes descriptors in between, as long as they are not those of
the table.

## Main definitions

* `Record.events` — what a call does with descriptors
* `Record.Process` — the table, what it has done with descriptors, and the addresses in it in the
  order of their arrival
* `Record.Inv` — the table holds what has been opened and not closed

## Main results

* `Record.openFds_sprdcolorRecord` — what a call opens and closes is what `events` says
* `Record.recordSlot_cases` — which entry a call writes
* `Record.record_ledger` — the table as a ledger of descriptors
-/

namespace A1000

namespace Record

open Shim StepSystem Handles Recolor

/-! ### The calls and their descriptors -/

/-- A call, and what `dup` returns in it. -/
structure Call where
  phys : UInt32
  fd : Int
  len : UInt32
  dupfd : Int
  deriving DecidableEq, Repr

/-- The descriptor that is closed: that of the entry which is written to, if it has one. -/
def closes (phys : UInt32) (s : State) : Option Int :=
  s.gPhys[(recordSlot phys s).1]?.bind fun e => if e.phys ≠ 0 ∧ e.fd > 0 then some e.fd else none

/-- What a call does with descriptors. -/
def events (c : Call) (s : State) : List (Event Int) :=
  if c.phys = 0 ∨ c.fd < 0 then []
  else ((closes c.phys s).map Event.closed).toList ++
    if c.dupfd < 0 then [] else [.opened c.dupfd]

/-- What an event does to the descriptors of the process. -/
def effect (fd : Int) (openFds : Int → Option ℕ) : Event Int → Int → Option ℕ
  | .opened d => Function.update openFds d (openFds fd)
  | .closed d => Function.update openFds d none

/-! ### The process -/

/-- The addresses in the table, slot by slot; 0 is a free slot. -/
def physes (s : State) : List UInt32 := s.gPhys.map PhysEntry.phys

def used (phys : UInt32) : Bool := phys ≠ 0

/-- The addresses in the table. -/
def keys (s : State) : List UInt32 := (physes s).filter used

/-- The descriptors in the table. -/
def stored (s : State) : List Int := (s.gPhys.map PhysEntry.fd).filter fun d => 0 < d

/-- The shim, what the table has done with descriptors, and the addresses in the order in which
they have come into the table. -/
structure Process where
  shim : State
  log : List (Event Int)
  arrived : List UInt32

/-- The order of arrival, when the table has changed: who stays keeps his place. -/
def arrive (order keys : List UInt32) : List UInt32 :=
  order.filter (fun k => k ∈ keys) ++ keys.filter fun k => k ∉ order

/-- A call, or something that the rest of the process does. -/
inductive Label
  | record (c : Call)
  | others (openFds : Int → Option ℕ)

/-- One step; `none` where it cannot happen. -/
def step (w : Process) : Label → Option (Process × Unit)
  | .record c =>
    if c.phys = 0 ∨ c.fd < 0 ∨ DupReturns c.fd c.dupfd (recordSlot c.phys w.shim).2 then
      let t := sprdcolorRecord c.phys c.fd c.len c.dupfd w.shim
      some (⟨t, w.log ++ events c w.shim, arrive w.arrived (keys t)⟩, ())
    else none
  | .others openFds =>
    if ∀ d ∈ held w.log, openFds d = w.shim.openFds d then
      some ({ w with shim := { w.shim with openFds := openFds } }, ())
    else none

/-- The process as it is loaded. -/
def start (openFds : Int → Option ℕ) (pixels : ℕ → List UInt8) : Process :=
  ⟨loaded openFds pixels, [], []⟩

/-! ### What a call does -/

/-- Which entry a call writes to: that of its address, or the first free one, or the one whose turn
it is. -/
theorem recordSlot_cases (phys : UInt32) (s : State) :
    ((physes s).findIdx? (fun k => k = phys) = some (recordSlot phys s).1 ∧
        (recordSlot phys s).2.gPhysrr = s.gPhysrr) ∨
      phys ∉ physes s ∧
        ((physes s).findIdx? (fun k => !used k) = some (recordSlot phys s).1 ∧
            (recordSlot phys s).2.gPhysrr = s.gPhysrr ∨
          (physes s).findIdx? (fun k => !used k) = none ∧ (recordSlot phys s).1 = s.gPhysrr ∧
            (recordSlot phys s).2.gPhysrr = (s.gPhysrr + 1) % physmap) := by
  have hclose : ∀ i holds (t : State), (closeEntry i holds t).gPhysrr = t.gPhysrr := by
    intro i holds t
    rw [closeEntry]
    repeat' split
    all_goals rfl
  have hfree : (physes s).findIdx? (fun k => !used k) = s.gPhys.findIdx? fun e => e.phys = 0 := by
    rw [physes, List.findIdx?_map]
    congr 1
    funext e
    simp [used]
  have hmine : (physes s).findIdx? (fun k => k = phys) =
      s.gPhys.findIdx? fun e => e.phys = phys := by
    rw [physes, List.findIdx?_map]
    rfl
  rw [hfree, hmine, recordSlot]
  cases hi : s.gPhys.findIdx? fun e => e.phys = phys with
  | some i => exact .inl ⟨rfl, hclose _ _ _⟩
  | none =>
    have hnew : phys ∉ physes s := by
      intro hmem
      obtain ⟨e, he, rfl⟩ := List.mem_map.mp hmem
      simpa using List.findIdx?_eq_none_iff.mp hi e he
    refine .inr ⟨hnew, ?_⟩
    cases hj : s.gPhys.findIdx? fun e => e.phys = 0 with
    | some freei => exact .inl ⟨rfl, rfl⟩
    | none => exact .inr ⟨rfl, rfl, hclose _ _ _⟩

/-- What becomes of the descriptors before `dup`. -/
theorem openFds_recordSlot {phys : UInt32} (hphys : phys ≠ 0) (s : State) :
    (recordSlot phys s).2.openFds =
      (((closes phys s).map Event.closed).toList).foldl (effect 0) s.openFds := by
  rw [closes]
  simp only [recordSlot]
  cases hi : s.gPhys.findIdx? fun e => e.phys = phys with
  | some i =>
    obtain ⟨hlt, heq, -⟩ := List.findIdx?_eq_some_iff_getElem.mp hi
    have hne : s.gPhys[i].phys ≠ 0 := by
      simp only [decide_eq_true_eq] at heq
      rw [heq]
      exact hphys
    simp only [closeEntry, List.getElem?_eq_getElem hlt, Option.bind_some]
    by_cases hfd : s.gPhys[i].fd > 0
    · simp [hfd, hne, close, effect]
    · simp [hfd]
  | none =>
    cases hj : s.gPhys.findIdx? fun e => e.phys = 0 with
    | some freei =>
      obtain ⟨hlt, heq, -⟩ := List.findIdx?_eq_some_iff_getElem.mp hj
      simp only [decide_eq_true_eq] at heq
      simp [List.getElem?_eq_getElem hlt, heq]
    | none =>
      simp only [closeEntry]
      cases he : s.gPhys[s.gPhysrr]? with
      | none => simp
      | some e =>
        by_cases hclose : e.phys ≠ 0 ∧ e.fd > 0
        · simp [hclose, close, effect]
        · simp only [Option.bind_some, hclose, decide_false, if_false, Bool.false_eq_true,
            Option.map_none, Option.toList_none, List.foldl_nil]

/-- **What a call opens and closes** is what `events` says. -/
theorem openFds_sprdcolorRecord (c : Call) (s : State) :
    (sprdcolorRecord c.phys c.fd c.len c.dupfd s).openFds =
      (events c s).foldl (effect c.fd) s.openFds := by
  rw [sprdcolorRecord, events]
  split_ifs with h hdup
  · rfl
  all_goals
    obtain ⟨hphys, hfd⟩ := not_or.mp h
    have hslot := openFds_recordSlot hphys s
    rw [List.foldl_append]
    cases hc : closes c.phys s <;> rw [hc] at hslot <;>
      simp [dup, hdup, hslot, effect]

/-! ### The order of arrival -/

/-- What a call does to the addresses in the table, oldest first. -/
inductive Moved (phys : UInt32) : List UInt32 → List UInt32 → Prop
  | kept {q : List UInt32} (mem : phys ∈ q) : Moved phys q q
  | put {q : List UInt32} (new : phys ∉ q) : Moved phys q (q ++ [phys])
  /-- The oldest makes way. -/
  | evicted {old : UInt32} {rest : List UInt32} (new : phys ∉ old :: rest)
      (full : (old :: rest).length = physmap) : Moved phys (old :: rest) (rest ++ [phys])

/-- The addresses in the table, oldest first. -/
def queue (s : State) : List UInt32 := Slots.queue used (physes s) s.gPhysrr

theorem queue_perm_keys (s : State) : (queue s).Perm (keys s) := Slots.queue_perm _ _ _

theorem Moved.nodup {phys : UInt32} {q q' : List UInt32} (h : Moved phys q q') (hq : q.Nodup) :
    q'.Nodup := by
  have hput : ∀ {l : List UInt32}, l.Nodup → phys ∉ l → (l ++ [phys]).Nodup := by
    intro l hl hnew
    rw [List.nodup_append_comm]
    exact List.nodup_cons.mpr ⟨hnew, hl⟩
  cases h with
  | kept mem => exact hq
  | put new => exact hput hq new
  | evicted new full =>
    exact hput (List.nodup_cons.mp hq).2 fun h => new (List.mem_cons_of_mem _ h)

/-- The order of arrival follows. -/
theorem Moved.arrive {phys : UInt32} {q q' ks : List UInt32} (h : Moved phys q q')
    (hq : q.Nodup) (hks : ks.Perm q') : arrive q ks = q' := by
  have hmem : ∀ k, k ∈ ks ↔ k ∈ q' := fun k => hks.mem_iff
  -- the newcomers are those of `q'`, which are none or one
  have hnew : ∀ {l : List UInt32}, phys ∉ q → (∀ k ∈ l, k ∈ q) → q' = l ++ [phys] →
      (ks.filter fun k => k ∉ q) = [phys] := by
    rintro l hphys hl rfl
    have hperm := hks.filter fun k => k ∉ q
    have hold : (l.filter fun k => k ∉ q) = [] := List.filter_eq_nil_iff.mpr (by simpa using hl)
    have hone : ([phys].filter fun k => k ∉ q) = [phys] :=
      List.filter_eq_self.mpr (by simpa using hphys)
    rw [List.filter_append, hold, hone, List.nil_append] at hperm
    exact List.perm_singleton.mp hperm
  rw [Record.arrive]
  cases h with
  | kept mem =>
    rw [List.filter_eq_self.mpr (by simp [hmem]), List.filter_eq_nil_iff.mpr (by simp [hmem]),
      List.append_nil]
  | put new =>
    rw [List.filter_eq_self.mpr (by simp +contextual [hmem]), hnew new (fun _ h => h) rfl]
  | @evicted old rest new full =>
    obtain ⟨hold, -⟩ := List.nodup_cons.mp hq
    obtain ⟨hne, -⟩ := not_or.mp fun h => new (List.mem_cons.mpr h)
    rw [hnew new (fun _ h => List.mem_cons_of_mem _ h) rfl, List.filter_cons_of_neg,
      List.filter_eq_self.mpr (by simp +contextual [hmem])]
    simp [hmem, hold, Ne.symm hne]

/-! ### What a call keeps -/

theorem gPhys_recordSlot (phys : UInt32) (s : State) : (recordSlot phys s).2.gPhys = s.gPhys := by
  have hclose : ∀ i holds (t : State), (closeEntry i holds t).gPhys = t.gPhys := by
    intro i holds t
    rw [closeEntry]
    repeat' split
    all_goals rfl
  rw [recordSlot]
  repeat' split
  · exact hclose _ _ _
  · rfl
  · exact hclose _ _ _

/-- The table after a call. -/
theorem gPhys_sprdcolorRecord {c : Call} (hphys : c.phys ≠ 0) (hfd : 0 ≤ c.fd) (s : State) :
    (sprdcolorRecord c.phys c.fd c.len c.dupfd s).gPhys =
      s.gPhys.set (recordSlot c.phys s).1 ⟨c.phys, c.dupfd, c.len⟩ := by
  have hcall : ¬ (c.phys = 0 ∨ c.fd < 0) := not_or.mpr ⟨hphys, by omega⟩
  rw [sprdcolorRecord, if_neg hcall, ← gPhys_recordSlot c.phys s]
  simp only [dup]
  split_ifs <;> rfl

theorem gPhysrr_sprdcolorRecord {c : Call} (hphys : c.phys ≠ 0) (hfd : 0 ≤ c.fd) (s : State) :
    (sprdcolorRecord c.phys c.fd c.len c.dupfd s).gPhysrr =
      (recordSlot c.phys s).2.gPhysrr := by
  have hcall : ¬ (c.phys = 0 ∨ c.fd < 0) := not_or.mpr ⟨hphys, by omega⟩
  rw [sprdcolorRecord, if_neg hcall]
  simp only [dup]
  split_ifs <;> rfl

/-- **What a call does to the addresses.** -/
theorem moved_of_record {c : Call} (hphys : c.phys ≠ 0) (hfd : 0 ≤ c.fd) {s t : State}
    (ht : t = sprdcolorRecord c.phys c.fd c.len c.dupfd s) (hlen : s.gPhys.length = physmap)
    (hfill : Slots.Filled used (physes s) s.gPhysrr) :
    Slots.Filled used (physes t) t.gPhysrr ∧ Moved c.phys (queue s) (queue t) := by
  have hset : physes t = (physes s).set (recordSlot c.phys s).1 c.phys := by
    rw [ht, physes, gPhys_sprdcolorRecord hphys hfd, List.map_set, physes]
  have hrr : t.gPhysrr = (recordSlot c.phys s).2.gPhysrr := by
    rw [ht, gPhysrr_sprdcolorRecord hphys hfd]
  have hused : used c.phys = true := by simpa [used] using hphys
  have hlen' : (physes s).length = physmap := by rw [physes, List.length_map, hlen]
  have hmem : ∀ k ∈ queue s, k ∈ physes s := fun k hk => (Slots.mem_queue.mp hk).1
  simp only [queue]
  rw [hset, hrr]
  rcases recordSlot_cases c.phys s with ⟨hi, hturn⟩ | ⟨hnew, ⟨hi, hturn⟩ | ⟨hi, hslot, hturn⟩⟩
  · -- the slot of this address
    obtain ⟨hlt, heq, -⟩ := List.findIdx?_eq_some_iff_getElem.mp hi
    rw [decide_eq_true_eq] at heq
    have hsame := List.set_getElem_self hlt
    rw [heq] at hsame
    rw [hsame, hturn]
    exact ⟨hfill, .kept (Slots.mem_queue.mpr ⟨heq ▸ List.getElem_mem hlt, hused⟩)⟩
  · obtain ⟨hfill', hqueue⟩ := hfill.put_free hi hused
    rw [hturn, hqueue]
    exact ⟨hfill', .put fun h => hnew (hmem _ h)⟩
  · obtain ⟨hfill', old, rest, -, hqueue, hqueue'⟩ := hfill.put_next hi hused
    rw [hslot, hturn, ← hlen', hqueue']
    have hall : (queue s).length = physmap := by
      rw [queue, (Slots.queue_perm _ _ _).length_eq, ← hlen']
      congr 1
      exact List.filter_eq_self.mpr fun k hk => by
        simpa using List.findIdx?_eq_none_iff.mp hi k hk
    rw [queue, hqueue] at hall hmem
    rw [hqueue]
    exact ⟨hfill', .evicted (fun h => hnew (hmem _ h)) hall⟩

/-! ### The ledger -/

/-- What has been opened and not closed are the descriptors `fds`, apart from 0, and they are open
in the process. -/
structure Holds (log : List (Event Int)) (openFds : Int → Option ℕ) (fds : List Int) : Prop where
  inOrder : InOrder log
  stored : ((held log).filter fun d => 0 < d).Perm (fds.filter fun d => 0 < d)
  nonneg : ∀ d ∈ held log, 0 ≤ d
  opened : ∀ d ∈ held log, openFds d ≠ none

theorem Holds.perm {log : List (Event Int)} {openFds : Int → Option ℕ} {fds fds' : List Int}
    (h : Holds log openFds fds) (hperm : fds.Perm fds') : Holds log openFds fds' :=
  ⟨h.inOrder, h.stored.trans (hperm.filter _), h.nonneg, h.opened⟩

/-- A descriptor of the ledger is closed. -/
theorem Holds.close {log : List (Event Int)} {openFds : Int → Option ℕ} {d : Int} {fds : List Int}
    (h : Holds log openFds (d :: fds)) (hd : 0 < d) :
    Holds (log ++ [.closed d]) (Function.update openFds d none) fds := by
  have hnodup := h.inOrder.nodup_held
  have hcons : (d :: fds).filter (fun d => 0 < d) = d :: fds.filter fun d => 0 < d :=
    List.filter_cons_of_pos (by simpa using hd)
  have hheld : d ∈ held log := by
    have hmem := h.stored.symm.subset (hcons ▸ List.mem_cons_self)
    exact (List.mem_filter.mp hmem).1
  have herase : ((held log).erase d).filter (fun d => 0 < d) =
      ((held log).filter fun d => 0 < d).erase d := by
    rw [hnodup.erase_eq_filter, (hnodup.filter _).erase_eq_filter, List.filter_comm]
  refine ⟨inOrder_snoc.mpr ⟨h.inOrder, hheld⟩, ?_, ?_, ?_⟩
  · rw [held_snoc, hold, herase]
    have hperm := h.stored.erase d
    rwa [hcons, List.erase_cons_head] at hperm
  · intro e he
    rw [held_snoc] at he
    exact h.nonneg e (List.mem_of_mem_erase he)
  · intro e he
    rw [held_snoc] at he
    obtain ⟨hne, he⟩ := hnodup.mem_erase_iff.mp he
    rw [Function.update_of_ne hne]
    exact h.opened e he

/-- A descriptor is opened, with a number that is not open. -/
theorem Holds.open {log : List (Event Int)} {openFds : Int → Option ℕ} {d : Int} {fds : List Int}
    {x : Option ℕ} (h : Holds log openFds fds) (hd : 0 ≤ d) (hfree : openFds d = none)
    (hx : x ≠ none) :
    Holds (log ++ [.opened d]) (Function.update openFds d x) (d :: fds) := by
  have hnew : d ∉ held log := fun hmem => h.opened d hmem hfree
  refine ⟨inOrder_snoc.mpr ⟨h.inOrder, hnew⟩, ?_, ?_, ?_⟩
  · rw [held_snoc, hold, List.filter_cons, List.filter_cons]
    split_ifs
    · exact h.stored.cons d
    · exact h.stored
  · rw [held_snoc]
    exact List.forall_mem_cons.mpr ⟨hd, h.nonneg⟩
  · rw [held_snoc]
    refine List.forall_mem_cons.mpr ⟨by rwa [Function.update_self], fun e he => ?_⟩
    rw [Function.update_of_ne (ne_of_mem_of_not_mem he hnew)]
    exact h.opened e he

/-- `dup` has failed: nothing is opened. -/
theorem Holds.failed {log : List (Event Int)} {openFds : Int → Option ℕ} {d : Int} {fds : List Int}
    (h : Holds log openFds fds) (hd : ¬ 0 < d) : Holds log openFds (d :: fds) :=
  ⟨h.inOrder, by rw [List.filter_cons_of_neg (by simpa using hd)]; exact h.stored, h.nonneg,
    h.opened⟩

/-- The entry that is written to has no descriptor worth closing. -/
theorem Holds.unneeded {log : List (Event Int)} {openFds : Int → Option ℕ} {d : Int}
    {fds : List Int} (h : Holds log openFds (d :: fds)) (hd : ¬ 0 < d) : Holds log openFds fds :=
  ⟨h.inOrder, by
    have hstored := h.stored
    rwa [List.filter_cons_of_neg (by simpa using hd)] at hstored, h.nonneg, h.opened⟩

/-! ### The invariant -/

/-- **The table is a ledger.** It is filled from its first slot on and then round, with distinct
addresses in the order of their arrival, and holds what has been opened and not closed. -/
structure Inv (w : Process) : Prop where
  length : w.shim.gPhys.length = physmap
  filled : Slots.Filled used (physes w.shim) w.shim.gPhysrr
  nodup : (queue w.shim).Nodup
  arrived : w.arrived = queue w.shim
  free : ∀ e ∈ w.shim.gPhys, e.phys = 0 → e.fd ≤ 0
  holds : Holds w.log w.shim.openFds (w.shim.gPhys.map PhysEntry.fd)

theorem inv_start (openFds : Int → Option ℕ) (pixels : ℕ → List UInt8) :
    Inv (start openFds pixels) where
  length := rfl
  filled := ⟨Nat.lt_of_sub_eq_succ rfl, [], List.replicate physmap 0, rfl, by simp,
    fun e he => by rw [List.eq_of_mem_replicate he]; rfl, .inr rfl⟩
  nodup := by
    change (Slots.queue used (List.replicate physmap 0) 0).Nodup
    decide
  arrived := by
    change [] = Slots.queue used (List.replicate physmap 0) 0
    decide
  free e he _ := by
    rw [List.eq_of_mem_replicate he]
  holds := ⟨inOrder_nil, by
    change List.Perm [] ((List.replicate physmap (0 : Int)).filter fun d => 0 < d)
    decide, by simp [start], by simp [start]⟩

theorem recordSlot_lt {w : Process} (h : Inv w) (phys : UInt32) :
    (recordSlot phys w.shim).1 < w.shim.gPhys.length := by
  have hlen : (physes w.shim).length = w.shim.gPhys.length := List.length_map _
  rw [← hlen]
  rcases recordSlot_cases phys w.shim with ⟨hi, -⟩ | ⟨-, ⟨hi, -⟩ | ⟨-, hslot, -⟩⟩
  · exact (List.findIdx?_eq_some_iff_getElem.mp hi).1
  · exact (List.findIdx?_eq_some_iff_getElem.mp hi).1
  · rw [hslot]
    exact h.filled.next_lt

/-- **What a call does to the ledger.** -/
theorem Inv.holds_record {w : Process} (h : Inv w) {c : Call} (hphys : c.phys ≠ 0)
    (hfd : 0 ≤ c.fd) (hdup : DupReturns c.fd c.dupfd (recordSlot c.phys w.shim).2) :
    Holds (w.log ++ events c w.shim) (sprdcolorRecord c.phys c.fd c.len c.dupfd w.shim).openFds
      ((sprdcolorRecord c.phys c.fd c.len c.dupfd w.shim).gPhys.map PhysEntry.fd) := by
  have hcall : ¬ (c.phys = 0 ∨ c.fd < 0) := not_or.mpr ⟨hphys, by omega⟩
  have hlt := recordSlot_lt h c.phys
  have hslot := openFds_recordSlot hphys w.shim
  have hopen : (sprdcolorRecord c.phys c.fd c.len c.dupfd w.shim).openFds =
      (dup c.fd c.dupfd (recordSlot c.phys w.shim).2).openFds := by
    rw [sprdcolorRecord, if_neg hcall]
  rw [gPhys_sprdcolorRecord hphys hfd, hopen, events, if_neg hcall, ← List.append_assoc]
  generalize hi : (recordSlot c.phys w.shim).1 = i at hlt
  generalize (recordSlot c.phys w.shim).2 = r at hdup hslot
  have hlt' : i < (w.shim.gPhys.map PhysEntry.fd).length := by rwa [List.length_map]
  have hold := h.holds.perm (List.getElem_cons_eraseIdx_perm hlt').symm
  rw [List.getElem_map] at hold
  -- the descriptor of the entry is closed, if it has one
  have hmid : Holds (w.log ++ ((closes c.phys w.shim).map Event.closed).toList) r.openFds
      ((w.shim.gPhys.map PhysEntry.fd).eraseIdx i) := by
    rw [hslot, closes, hi, List.getElem?_eq_getElem hlt, Option.bind_some]
    by_cases hpos : 0 < w.shim.gPhys[i].fd
    · have hne : w.shim.gPhys[i].phys ≠ 0 := by
        intro hzero
        have hfree := h.free _ (List.getElem_mem hlt) hzero
        omega
      rw [if_pos ⟨hne, hpos⟩]
      exact hold.close hpos
    · rw [if_neg fun hc => hpos hc.2]
      simpa using hold.unneeded hpos
  rw [List.map_set]
  refine Holds.perm ?_ (List.set_perm_cons_eraseIdx hlt' _).symm
  rcases hdup with hfail | ⟨hnonneg, hfree, hfrom⟩
  · rw [hfail, dup, if_pos (by decide), if_pos (by decide), List.append_nil]
    exact hmid.failed (Int.not_lt.mpr (by decide : (-1 : Int) ≤ 0))
  · rw [dup, if_neg (by omega), if_neg (by omega)]
    exact hmid.open hnonneg hfree hfrom

theorem Inv.record {w : Process} (h : Inv w) {c : Call} (hphys : c.phys ≠ 0) (hfd : 0 ≤ c.fd)
    (hdup : DupReturns c.fd c.dupfd (recordSlot c.phys w.shim).2) {t : State}
    (ht : t = sprdcolorRecord c.phys c.fd c.len c.dupfd w.shim) :
    Inv ⟨t, w.log ++ events c w.shim, arrive w.arrived (keys t)⟩ := by
  obtain ⟨hfill, hmoved⟩ := moved_of_record hphys hfd ht h.length h.filled
  have htable := gPhys_sprdcolorRecord hphys hfd w.shim
  refine ⟨?_, hfill, hmoved.nodup h.nodup, ?_, ?_, ?_⟩
  · rw [ht, htable, List.length_set, h.length]
  · rw [h.arrived]
    exact hmoved.arrive h.nodup (queue_perm_keys t).symm
  · intro e he hzero
    rw [ht, htable] at he
    rcases List.mem_or_eq_of_mem_set he with he | rfl
    · exact h.free e he hzero
    · exact absurd hzero hphys
  · rw [ht]
    exact h.holds_record hphys hfd hdup

theorem Inv.step {w w' : Process} {l : Label} {o : Unit} (h : Inv w)
    (next : step w l = some (w', o)) : Inv w' := by
  cases l with
  | record c =>
    rw [Record.step] at next
    split at next
    case isFalse => cases next
    case isTrue hguard =>
      cases next
      by_cases hcall : c.phys = 0 ∨ c.fd < 0
      · -- nothing to record
        have hsame : sprdcolorRecord c.phys c.fd c.len c.dupfd w.shim = w.shim := by
          rw [sprdcolorRecord, if_pos hcall]
        have harrive : Record.arrive w.arrived (keys w.shim) = w.arrived := by
          rw [h.arrived, Record.arrive, List.filter_eq_self.mpr, List.filter_eq_nil_iff.mpr,
            List.append_nil]
          · simp [(queue_perm_keys w.shim).mem_iff]
          · simp [(queue_perm_keys w.shim).mem_iff]
        rw [hsame, harrive, events, if_pos hcall, List.append_nil]
        exact h
      · obtain ⟨hphys, hfd⟩ := not_or.mp hcall
        have hdup := (hguard.resolve_left hphys).resolve_left hfd
        exact h.record hphys (by omega) hdup rfl
  | others openFds =>
    rw [Record.step] at next
    split at next
    case isFalse => cases next
    case isTrue hsame =>
      cases next
      refine ⟨h.length, h.filled, h.nodup, h.arrived, h.free, h.holds.inOrder, h.holds.stored,
        h.holds.nonneg, fun d hd => ?_⟩
      exact (hsame d hd).trans_ne (h.holds.opened d hd)

theorem inv_of_run {openFds : Int → Option ℕ} {pixels : ℕ → List UInt8}
    {tr : List (Label × Unit)} {w : Process} (h : Run step (start openFds pixels) tr w) : Inv w :=
  h.invariant (P := fun _ w => Inv w) (inv_start openFds pixels) fun h _ next => h.step next

/-! ### What a call leaves -/

/-- No entry before the one that is written to has the address. -/
theorem recordSlot_first {phys : UInt32} {s : State} {j : ℕ} (hj : j < (recordSlot phys s).1)
    (hlt : j < s.gPhys.length) : s.gPhys[j].phys ≠ phys := by
  rcases recordSlot_cases phys s with ⟨hi, -⟩ | ⟨hnew, -⟩
  · obtain ⟨hlt, -, hbefore⟩ := List.findIdx?_eq_some_iff_getElem.mp hi
    have hne := hbefore j hj
    simp only [physes, List.getElem_map, decide_eq_true_eq] at hne
    exact hne
  · rintro rfl
    exact hnew (List.mem_map_of_mem (List.getElem_mem hlt))

/-- What a call leaves: what it has done with the descriptors of the process is in the log, its own
entry is the latest, and what has gone was the oldest of a full table. -/
structure Recorded (w : Process) (c : Call) (w' : Process) : Prop where
  log : w'.log = w.log ++ events c w.shim
  openFds : w'.shim.openFds = (events c w.shim).foldl (effect c.fd) w.shim.openFds
  entry : c.phys ≠ 0 → 0 ≤ c.fd →
    w'.shim.gPhys.find? (fun e => e.phys = c.phys) = some ⟨c.phys, c.dupfd, c.len⟩
  gone : ∀ k ∈ keys w.shim, k ∉ keys w'.shim →
    c.phys ∉ keys w.shim ∧ (keys w.shim).length = physmap ∧ w.arrived.head? = some k

theorem Inv.recorded {w w' : Process} {c : Call} {o : Unit} (h : Inv w)
    (next : Record.step w (.record c) = some (w', o)) : Recorded w c w' := by
  obtain ⟨hshim, hlog⟩ : w'.shim = sprdcolorRecord c.phys c.fd c.len c.dupfd w.shim ∧
      w'.log = w.log ++ events c w.shim := by
    rw [Record.step] at next
    split at next <;> cases next
    exact ⟨rfl, rfl⟩
  have hmem : ∀ (s : State) k, k ∈ keys s ↔ k ∈ queue s :=
    fun s k => (queue_perm_keys s).symm.mem_iff
  refine ⟨hlog, hshim ▸ openFds_sprdcolorRecord c w.shim, ?_, ?_⟩
  · intro hphys hfd
    have hlt := recordSlot_lt h c.phys
    rw [hshim, gPhys_sprdcolorRecord hphys hfd, List.find?_eq_some_iff_getElem]
    refine ⟨by simp, _, by rwa [List.length_set], List.getElem_set_self _, fun j hj => ?_⟩
    rw [List.getElem_set_of_ne (by omega)]
    simpa using recordSlot_first hj (hj.trans hlt)
  · intro k hk hgone
    by_cases hcall : c.phys = 0 ∨ c.fd < 0
    · rw [hshim, sprdcolorRecord, if_pos hcall] at hgone
      exact absurd hk hgone
    · obtain ⟨hphys, hfd⟩ := not_or.mp hcall
      obtain ⟨-, hmoved⟩ := moved_of_record hphys (by omega) hshim h.length h.filled
      rw [hmem] at hk hgone ⊢
      rw [h.arrived, (queue_perm_keys w.shim).symm.length_eq]
      generalize queue w'.shim = q' at hmoved hgone
      generalize queue w.shim = q at hmoved hk
      cases hmoved with
      | kept mem => exact absurd hk hgone
      | put new => exact absurd (List.mem_append_left _ hk) hgone
      | evicted new full =>
        refine ⟨new, full, ?_⟩
        rcases List.mem_cons.mp hk with rfl | hk
        · rfl
        · exact absurd (List.mem_append_left _ hk) hgone

/-- **The table is a correct ledger**, after every run of calls: the addresses in it are distinct;
what has been opened and not closed are the descriptors in it, of which there are at most sixteen,
and perhaps the descriptor 0; what is closed has been opened and not been closed since; and every
call opens and closes in the process what the log says, leaves its own entry, and makes only the
oldest of sixteen addresses go. -/
theorem record_ledger {openFds : Int → Option ℕ} {pixels : ℕ → List UInt8}
    {tr : List (Label × Unit)} {w : Process} (h : Run step (start openFds pixels) tr w) :
    (keys w.shim).Nodup ∧
      ((held w.log).filter fun d => 0 < d).Perm (stored w.shim) ∧
      (stored w.shim).length ≤ 16 ∧ (∀ d ∈ held w.log, 0 ≤ d) ∧ InOrder w.log ∧
      ∀ c w' o, step w (.record c) = some (w', o) → Recorded w c w' := by
  have hinv := inv_of_run h
  have hlen : (stored w.shim).length ≤ physmap := by
    rw [← hinv.length, ← List.length_map PhysEntry.fd]
    exact List.length_filter_le _ _
  exact ⟨(queue_perm_keys w.shim).nodup_iff.mp hinv.nodup, hinv.holds.stored, hlen,
    hinv.holds.nonneg, hinv.holds.inOrder, fun c w' o next => hinv.recorded next⟩

/-- The descriptor 4, through which seventeen addresses are recorded. -/
def seventeen : List Label :=
  (List.range 17).map fun n => .record ⟨.ofNat (4096 * (n + 1)), 4, 64, 5 + n⟩

/-- The first of seventeen addresses goes, and its descriptor is closed. -/
theorem record_ledger_seventeen :
    ∃ tr w, Run step (start oneBuffer onePixel) tr w ∧
      w.log = ((List.range 16).map fun (n : ℕ) => .opened (5 + n : Int)) ++
        [.closed 5, .opened 21] ∧ InOrder w.log ∧ (stored w.shim).length = 16 := by
  have hexec : (exec step (fun _ _ => True) (start oneBuffer onePixel) seventeen).map
      (fun r => (r.2.log, (stored r.2.shim).length)) =
        some (((List.range 16).map fun (n : ℕ) => .opened (5 + n : Int)) ++
          [.closed 5, .opened 21], 16) := by decide +kernel
  obtain ⟨⟨tr, w⟩, hw, heq⟩ := Option.map_eq_some_iff.mp hexec
  obtain ⟨hlog, hlen⟩ := Prod.mk.inj heq
  obtain ⟨-, -, -, -, horder, -⟩ := record_ledger (run_of_exec hw)
  exact ⟨tr, w, run_of_exec hw, hlog, horder, hlen⟩

end Record

end A1000

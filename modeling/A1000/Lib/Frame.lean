import A1000.Lib.Fallible
import A1000.Lib.Window

/-!
# What a write leaves alone

Two windows that differ in a set of addresses at most give the same answer to whoever stays out of
that set. A string that has been read tells where its bytes are, so nothing else has to be known of
it.

## Main definitions

* `Window.InWord` — the four bytes of a word
* `Window.SameBut` — the same window but for some addresses

## Main results

* `Window.SameBut.read32`, `Window.SameBut.cstr` — reading elsewhere
* `Window.sameBut_write32`, `Window.read32_write32` — what a write changes, and what it leaves
* `Window.strcmp_of_cstr` — the comparison with a string that can be read
-/

namespace Window

open Bytes Fallible

/-! ### Words -/

/-- The address `x` is one of the four of the word at `a`. -/
def InWord (a x : UInt32) : Prop := (x - a).toNat < 4

instance (a x : UInt32) : Decidable (InWord a x) := inferInstanceAs (Decidable ((x - a).toNat < 4))

theorem add_ofNat_add (a : UInt32) (n k : ℕ) : a + .ofNat n + .ofNat k = a + .ofNat (n + k) := by
  rw [UInt32.ofNat_add, UInt32.add_assoc]

/-- The addresses of the bytes behind the first one. -/
theorem add_one_ofNat (a : UInt32) (k : ℕ) : a + 1 + .ofNat k = a + .ofNat (k + 1) := by
  rw [UInt32.ofNat_add, UInt32.add_assoc, UInt32.add_comm (1 : UInt32)]
  rfl

/-- How far in a word. -/
theorem toNat_add_sub (a : UInt32) {k : ℕ} (hk : k < 4) : (a + .ofNat k - a).toNat = k := by
  have hsub : a + .ofNat k - a = .ofNat k := by grind
  rw [hsub, UInt32.toNat_ofNat_of_lt' (lt_of_lt_of_le hk (by decide))]

theorem inWord_add (a : UInt32) {k : ℕ} (hk : k < 4) : InWord a (a + .ofNat k) := by
  rw [InWord, toNat_add_sub a hk]
  exact hk

/-- The words at `a` and at `b` have no byte in common: neither begins in the other. -/
def WordsApart (a b : UInt32) : Prop := ¬ InWord a b ∧ ¬ InWord b a

instance (a b : UInt32) : Decidable (WordsApart a b) := inferInstanceAs (Decidable (_ ∧ _))

theorem WordsApart.symm {a b : UInt32} (h : WordsApart a b) : WordsApart b a := ⟨h.2, h.1⟩

theorem WordsApart.not_inWord {a b x : UInt32} (h : WordsApart a b) (hx : InWord a x) :
    ¬ InWord b x := by
  intro hx'
  have hab : b - a = x - a - (x - b) := by grind
  have hba : a - b = x - b - (x - a) := by grind
  obtain ⟨h₁, h₂⟩ := h
  rw [InWord] at hx hx'
  rw [InWord, hab, UInt32.toNat_sub] at h₁
  rw [InWord, hba, UInt32.toNat_sub] at h₂
  omega

/-! ### Windows that differ in some addresses -/

/-- The window `m'` is `m` but for what is in `S`. -/
structure SameBut (S : UInt32 → Prop) (m m' : Window) : Prop where
  start : m'.start = m.start
  span : m'.span = m.span
  readable : m'.readable = m.readable
  cells : ∀ a, ¬ S a → m'.cells a = m.cells a

theorem SameBut.refl (S : UInt32 → Prop) (m : Window) : SameBut S m m :=
  ⟨rfl, rfl, rfl, fun _ _ => rfl⟩

theorem SameBut.trans {S : UInt32 → Prop} {m m' m'' : Window} (h : SameBut S m m')
    (h' : SameBut S m' m'') : SameBut S m m'' where
  start := h'.start.trans h.start
  span := h'.span.trans h.span
  readable := h'.readable.trans h.readable
  cells a ha := (h'.cells a ha).trans (h.cells a ha)

theorem SameBut.mono {S T : UInt32 → Prop} {m m' : Window} (h : SameBut S m m')
    (hST : ∀ a, S a → T a) : SameBut T m m' :=
  { h with cells := fun a ha => h.cells a fun hS => ha (hST a hS) }

variable {S : UInt32 → Prop} {m m' : Window}

theorem SameBut.read8 (h : SameBut S m m') {a : UInt32} (ha : ¬ S a) : m'.read8 a = m.read8 a := by
  rw [Window.read8, Window.read8, h.start, h.span, h.readable, h.cells a ha]

theorem SameBut.read (h : SameBut S m m') {n : ℕ} {a : UInt32}
    (ha : ∀ k < n, ¬ S (a + .ofNat k)) : m'.read n a = m.read n a := by
  induction n generalizing a with
  | zero => rfl
  | succ n ih =>
    have hfirst : ¬ S a := by
      have h0 := ha 0 (Nat.zero_lt_succ n)
      rwa [show a + .ofNat 0 = a from UInt32.add_zero a] at h0
    rw [Window.read, Window.read, h.read8 hfirst, ih fun k hk => ?_]
    rw [add_one_ofNat]
    exact ha (k + 1) (Nat.succ_lt_succ hk)

theorem SameBut.read32 (h : SameBut S m m') {a : UInt32} (ha : ∀ k < 4, ¬ S (a + .ofNat k)) :
    m'.read32 a = m.read32 a := by
  rw [Window.read32, Window.read32, h.read ha]

theorem SameBut.read16 (h : SameBut S m m') {a : UInt32} (ha : ∀ k < 2, ¬ S (a + .ofNat k)) :
    m'.read16 a = m.read16 a := by
  rw [Window.read16, Window.read16, h.read ha]

/-! ### Strings -/

/-- A string that can be read: its end, or its first byte and the rest. -/
theorem cstr_eq_ok_nil {a : UInt32} : m.cstr a = .ok [] ↔ m.read8 a = .ok 0 := by
  rw [cstr_eq, bind_eq_ok]
  constructor
  · rintro ⟨b, hb, h⟩
    split at h
    · rename_i hzero
      rwa [hzero] at hb
    · obtain ⟨s, -, h⟩ := bind_eq_ok.mp h
      cases h
  · exact fun h => ⟨0, h, rfl⟩

theorem cstr_eq_ok_cons {a : UInt32} {b : UInt8} {s : Bytes} :
    m.cstr a = .ok (b :: s) ↔ m.read8 a = .ok b ∧ b ≠ 0 ∧ m.cstr (a + 1) = .ok s := by
  rw [cstr_eq, bind_eq_ok]
  constructor
  · rintro ⟨c, hc, h⟩
    split at h
    · cases h
    · rename_i hne
      obtain ⟨t, ht, h⟩ := bind_eq_ok.mp h
      cases h
      exact ⟨hc, hne, ht⟩
  · rintro ⟨hb, hne, hs⟩
    refine ⟨b, hb, ?_⟩
    rw [if_neg hne]
    exact bind_eq_ok.mpr ⟨s, hs, rfl⟩

theorem zero_notMem_of_cstr {a : UInt32} {s : Bytes} (h : m.cstr a = .ok s) : 0 ∉ s := by
  induction s generalizing a with
  | nil => exact List.not_mem_nil
  | cons b s ih =>
    obtain ⟨-, hne, hs⟩ := cstr_eq_ok_cons.mp h
    rw [List.mem_cons, not_or]
    exact ⟨fun h => hne h.symm, ih hs⟩

/-- A string is left alone with its bytes and its end. -/
theorem SameBut.cstr (h : SameBut S m m') {a : UInt32} {s : Bytes} (hs : m.cstr a = .ok s)
    (ha : ∀ k < s.length + 1, ¬ S (a + .ofNat k)) : m'.cstr a = .ok s := by
  induction s generalizing a with
  | nil =>
    have h0 := ha 0 Nat.zero_lt_one
    rw [show a + .ofNat 0 = a from UInt32.add_zero a] at h0
    rw [cstr_eq_ok_nil, h.read8 h0]
    exact cstr_eq_ok_nil.mp hs
  | cons b s ih =>
    have h0 := ha 0 (Nat.zero_lt_succ _)
    rw [show a + .ofNat 0 = a from UInt32.add_zero a] at h0
    obtain ⟨hb, hne, hrest⟩ := cstr_eq_ok_cons.mp hs
    rw [cstr_eq_ok_cons, h.read8 h0]
    refine ⟨hb, hne, ih hrest fun k hk => ?_⟩
    rw [add_one_ofNat]
    exact ha (k + 1) (Nat.succ_lt_succ hk)

/-- **The comparison** with a string that can be read. -/
theorem strcmp_of_cstr {a : UInt32} {s t : Bytes} (hs : m.cstr a = .ok s) (ht : 0 ∉ t) :
    m.strcmp a t = .ok (decide (s = t)) := by
  induction t generalizing a s with
  | nil =>
    cases s with
    | nil =>
      rw [Window.strcmp, cstr_eq_ok_nil.mp hs]
      rfl
    | cons b s =>
      obtain ⟨hb, hne, -⟩ := cstr_eq_ok_cons.mp hs
      rw [Window.strcmp, hb, ok_bind, decide_eq_false hne, decide_eq_false (List.cons_ne_nil b s)]
      rfl
  | cons c t ih =>
    rw [List.mem_cons, not_or] at ht
    cases s with
    | nil =>
      rw [Window.strcmp, cstr_eq_ok_nil.mp hs, ok_bind, if_neg ht.1,
        decide_eq_false (List.cons_ne_nil c t).symm]
      rfl
    | cons b s =>
      obtain ⟨hb, -, hrest⟩ := cstr_eq_ok_cons.mp hs
      rw [Window.strcmp, hb, ok_bind]
      by_cases hbc : b = c
      · rw [if_pos hbc, ih hrest ht.2, hbc]
        simp
      · rw [if_neg hbc, decide_eq_false fun h => hbc (List.cons.inj h).1]
        rfl

/-! ### Writes -/

/-- **A write** of a word in the window changes this word. -/
theorem sameBut_write32 {a v : UInt32} (hin : (a - m.start).toNat + 4 ≤ m.span.toNat) :
    ∃ m', m.write32 a v = .ok m' ∧ SameBut (InWord a) m m' ∧
      ∀ k < 4, m'.cells (a + .ofNat k) = (packU32 v.toNat).getD k 0 := by
  rw [write32, write, if_pos (.inr hin)]
  refine ⟨_, rfl, ⟨rfl, rfl, rfl, fun x hx => if_neg hx⟩, fun k hk => ?_⟩
  dsimp only
  rw [toNat_add_sub a hk, if_pos (show k < (packU32 v.toNat).length from hk)]

/-- Several bytes, one by one. -/
theorem read_eq_ok_iff {n : ℕ} {a : UInt32} {bs : Bytes} :
    m.read n a = .ok bs ↔ bs.length = n ∧ ∀ k < n, m.read8 (a + .ofNat k) = .ok (bs.getD k 0) := by
  induction n generalizing a bs with
  | zero =>
    rw [Window.read, Except.ok.injEq, eq_comm, List.length_eq_zero_iff]
    simp
  | succ n ih =>
    rw [Window.read, bind_eq_ok]
    constructor
    · rintro ⟨b, hb, h⟩
      obtain ⟨bs', hbs', h⟩ := bind_eq_ok.mp h
      cases h
      obtain ⟨hlen, hall⟩ := ih.mp hbs'
      refine ⟨by rw [List.length_cons, hlen], fun k hk => ?_⟩
      cases k with
      | zero =>
        rw [show a + .ofNat 0 = a from UInt32.add_zero a]
        exact hb
      | succ k =>
        rw [← add_one_ofNat, List.getD_cons_succ]
        exact hall k (Nat.lt_of_succ_lt_succ hk)
    · rintro ⟨hlen, hall⟩
      obtain ⟨b, bs', rfl⟩ := List.exists_cons_of_length_eq_add_one hlen
      have h0 := hall 0 (Nat.zero_lt_succ n)
      rw [show a + .ofNat 0 = a from UInt32.add_zero a, List.getD_cons_zero] at h0
      refine ⟨b, h0, bind_eq_ok.mpr ⟨bs', ih.mpr ⟨Nat.succ.inj hlen, fun k hk => ?_⟩, rfl⟩⟩
      rw [add_one_ofNat]
      have hk' := hall (k + 1) (Nat.succ_lt_succ hk)
      rwa [List.getD_cons_succ] at hk'

/-- **What has been written** can be read, where anything could be read before. -/
theorem read32_write32 {a v w : UInt32} (hin : (a - m.start).toNat + 4 ≤ m.span.toNat)
    (hread : m.read32 a = .ok w) : ∃ m', m.write32 a v = .ok m' ∧ SameBut (InWord a) m m' ∧
      m'.read32 a = .ok v := by
  obtain ⟨m', hm', hsame, hcells⟩ := sameBut_write32 (v := v) hin
  refine ⟨m', hm', hsame, ?_⟩
  obtain ⟨bs, hbs, -⟩ := bind_eq_ok.mp hread
  obtain ⟨-, hall⟩ := read_eq_ok_iff.mp hbs
  have hwritten : m'.read 4 a = .ok (packU32 v.toNat) := by
    refine read_eq_ok_iff.mpr ⟨rfl, fun k hk => ?_⟩
    have hk' := hall k hk
    rw [Window.read8] at hk' ⊢
    split at hk'
    · rename_i hcan
      rw [hsame.start, hsame.span, hsame.readable, if_pos hcan, hcells k hk]
    · cases hk'
  rw [Window.read32, hwritten, ok_bind, u32_packU32 v.toNat_lt]
  exact congrArg Except.ok UInt32.ofNat_toNat

end Window

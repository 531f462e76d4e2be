import A1000.Lib.Bytes

/-!
# A window of memory

A program in C that reads a mapping it has made sees a window of the 32-bit address space: outside
of it, or where the protection forbids it, an access has no meaning. Addresses wrap around.

## Main definitions

* `Call` — the result of a C function: a value, its own failure, or undefined behaviour
* `Window` — a mapping
* `Window.scan` — read entries until one says that it is the last, as a C string is read

## Main results

* `Window.scan_eq` — a scan does not run out of fuel
-/

/-- Why a call does not give a value. -/
inductive Stop where
  | undefined
  | failed
  deriving DecidableEq, Repr

/-- The result of a call. -/
abbrev Call (α : Type*) := Except Stop α

/-- A mapping: where it is, what is in it, and what may be read of it. -/
structure Window where
  start : UInt32
  span : UInt32
  cells : UInt32 → UInt8
  readable : UInt32 → Bool

namespace Window

open Bytes

variable {β : Type}

/-- A byte. -/
def read8 (m : Window) (a : UInt32) : Call UInt8 :=
  if a - m.start < m.span ∧ m.readable a = true then .ok (m.cells a) else .error .undefined

/-- Several bytes. -/
def read (m : Window) : ℕ → UInt32 → Call Bytes
  | 0, _ => .ok []
  | n + 1, a => do
    let b ← m.read8 a
    let bs ← m.read n (a + 1)
    return b :: bs

/-- A little-endian number of 16 bits. -/
def read16 (m : Window) (a : UInt32) : Call ℕ := do return u32 (← m.read 2 a)

/-- A little-endian number of 32 bits. -/
def read32 (m : Window) (a : UInt32) : Call UInt32 := do return .ofNat (u32 (← m.read 4 a))

/-- Put bytes to an address. -/
def write (m : Window) (a : UInt32) (d : Bytes) : Call Window :=
  if d = [] ∨ (a - m.start).toNat + d.length ≤ m.span.toNat then
    .ok { m with
      cells := fun x => if (x - a).toNat < d.length then d.getD (x - a).toNat 0 else m.cells x }
  else .error .undefined

/-- Put a number of 32 bits to an address. -/
def write32 (m : Window) (a v : UInt32) : Call Window := m.write a (packU32 v.toNat)

/-- Whether the string at `a` is `s`, as far as `strcmp` says. -/
def strcmp (m : Window) : UInt32 → Bytes → Call Bool
  | a, [] => do return (← m.read8 a) = 0
  | a, c :: s => do
    if (← m.read8 a) = c then m.strcmp (a + 1) s else return false

/-- Read entries, `stride` bytes apart, until one of them is the last. -/
def scanFuel (entry : UInt32 → Call (Option β)) (stride : UInt32) : ℕ → UInt32 → Call (List β)
  | 0, _ => .error .undefined
  | n + 1, a => do
    match ← entry a with
    | none => return []
    | some b => return b :: (← scanFuel entry stride n (a + stride))

/-- A scan of a window. It leaves the window before it runs out of fuel. -/
def scan (m : Window) (entry : UInt32 → Call (Option β)) (stride a : UInt32) : Call (List β) :=
  scanFuel entry stride (m.span.toNat + 1) a

/-- A C string. -/
def cstr (m : Window) (a : UInt32) : Call Bytes :=
  m.scan (fun a => do
    let b ← m.read8 a
    return if b = 0 then none else some b) 1 a

/-! ### The fuel of a scan -/

theorem read8_outside {m : Window} {a : UInt32} (h : ¬ a - m.start < m.span) :
    m.read8 a = .error .undefined := by
  rw [read8, if_neg fun h' => h h'.1]

theorem read32_outside {m : Window} {a : UInt32} (h : ¬ a - m.start < m.span) :
    m.read32 a = .error .undefined := by
  rw [read32, read, read8_outside h]
  rfl

theorem toNat_offset_add {start a stride : UInt32}
    (h : (a - start).toNat + stride.toNat < 2 ^ 32) :
    (a + stride - start).toNat = (a - start).toNat + stride.toNat := by
  have hcomm : a + stride - start = a - start + stride := by grind
  rw [hcomm, UInt32.toNat_add, Nat.mod_eq_of_lt h]

section Fuel

variable {m : Window} {entry : UInt32 → Call (Option β)} {stride : UInt32}

theorem scanFuel_add (houtside : ∀ a, ¬ a - m.start < m.span → entry a = .error .undefined)
    (hstride : 1 ≤ stride.toNat) (hspan : m.span.toNat + stride.toNat ≤ 2 ^ 32) (k : ℕ) :
    ∀ {n : ℕ} {a : UInt32}, m.span.toNat ≤ n + (a - m.start).toNat →
      scanFuel entry stride (n + 1 + k) a = scanFuel entry stride (n + 1) a := by
  intro n
  induction n with
  | zero =>
    intro a h
    have hentry := houtside a (by rw [UInt32.lt_iff_toNat_lt]; omega)
    rw [Nat.add_right_comm, scanFuel, scanFuel, hentry]
    rfl
  | succ n ih =>
    intro a h
    rw [Nat.add_right_comm _ 1 k, scanFuel, scanFuel]
    by_cases hin : a - m.start < m.span
    · have hlt := UInt32.lt_iff_toNat_lt.mp hin
      have hoff : (a + stride - m.start).toNat = (a - m.start).toNat + stride.toNat :=
        toNat_offset_add (by omega)
      rw [ih (a := a + stride) (by omega)]
    · rw [houtside a hin]
      rfl

/-- **A scan without its fuel.** -/
theorem scan_eq (houtside : ∀ a, ¬ a - m.start < m.span → entry a = .error .undefined)
    (hstride : 1 ≤ stride.toNat) (hspan : m.span.toNat + stride.toNat ≤ 2 ^ 32) (a : UInt32) :
    m.scan entry stride a = (do
      match ← entry a with
      | none => return []
      | some b => return b :: (← m.scan entry stride (a + stride))) := by
  by_cases hin : a - m.start < m.span
  · have hlt := UInt32.lt_iff_toNat_lt.mp hin
    have hoff : (a + stride - m.start).toNat = (a - m.start).toNat + stride.toNat :=
      toNat_offset_add (by omega)
    obtain ⟨n, hn⟩ : ∃ n, m.span.toNat = n + 1 := ⟨m.span.toNat - 1, by omega⟩
    have hfuel := scanFuel_add houtside hstride hspan 1 (n := n) (a := a + stride) (by omega)
    rw [scan, scan, hn, scanFuel, hfuel]
  · rw [scan, scanFuel, houtside a hin]
    rfl

end Fuel

/-- A C string without the fuel. -/
theorem cstr_eq (m : Window) (a : UInt32) :
    m.cstr a = (do
      let b ← m.read8 a
      if b = 0 then return [] else return b :: (← m.cstr (a + 1))) := by
  have houtside : ∀ a, ¬ a - m.start < m.span → (do
      let b ← m.read8 a
      return if b = 0 then none else some b : Call (Option UInt8)) = .error .undefined := by
    intro a h
    rw [read8_outside h]
    rfl
  have hspan : m.span.toNat + (1 : UInt32).toNat ≤ 2 ^ 32 := m.span.toNat_lt
  rw [cstr, scan_eq houtside le_rfl hspan]
  cases m.read8 a with
  | error e => rfl
  | ok b =>
    by_cases hb : b = 0
    · simp only [hb, Except.bind, bind, pure, Except.pure, if_pos]
    · simp only [hb, Except.bind, bind, pure, Except.pure, if_false, cstr]

end Window

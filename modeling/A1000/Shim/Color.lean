import Mathlib.Data.Fin.VecNotation
import Mathlib.Tactic.IntervalCases

/-!
# The colour pass

`process` in `libsprdshim_ioctl.c`: sixteen pixels at a time through NEON registers, the rest one
word at a time, hashing what it leaves and, when asked to, turning every pixel from `[R, G, B, A]`
to `[G, B, R, A]` on the way.

Memory is a list of bytes from the start of the mapping on. A NEON register is a function on its
lanes; `vld4q_u8` deinterleaves sixty-four bytes into four registers and `vst4q_u8` interleaves
them again.

## Main definitions

* `Shim.process` — the pass
* `Shim.turnPixels` — what it does to the picture, pixel by pixel
* `Shim.Grey` — the pictures it leaves as they are

## Main results

* `Shim.process_false_bytes` — hashing changes nothing
* `Shim.process_true_bytes` — turning is `turnPixels`, whatever the split into groups and tail
* `Shim.process_again` — the hash it leaves is the hash found when nobody has written since
* `Shim.process_meaning` — the pass, pixel by pixel
* `Shim.turnPixels_eq_self_iff` — turning leaves exactly the grey pictures as they are
-/

namespace A1000

namespace Shim

/-! ### Registers -/

abbrev Uint8x16 := Fin 16 → UInt8

abbrev Uint8x16x4 := Fin 4 → Uint8x16

abbrev Uint32x4 := Fin 4 → UInt32

/-- Four bytes as a little-endian word. -/
def word (b₀ b₁ b₂ b₃ : UInt8) : UInt32 :=
  b₀.toUInt32 ||| b₁.toUInt32 <<< 8 ||| b₂.toUInt32 <<< 16 ||| b₃.toUInt32 <<< 24

/-- The bytes of a word, little-endian. -/
def wordBytes (v : UInt32) : List UInt8 :=
  [v.toUInt8, (v >>> 8).toUInt8, (v >>> 16).toUInt8, (v >>> 24).toUInt8]

/-- The byte at `i`. -/
def byteAt (b : List UInt8) (i : ℕ) : UInt8 := b[i]?.getD 0

/-- `vld4q_u8`. -/
def vld4q (b : List UInt8) : Uint8x16x4 := fun k j => byteAt b (4 * j + k)

/-- `vst4q_u8`: the sixty-four bytes it stores. -/
def vst4q (v : Uint8x16x4) : List UInt8 :=
  List.ofFn fun i : Fin 64 => v ⟨i % 4, Nat.mod_lt _ (by decide)⟩ ⟨i / 4, by omega⟩

/-- `vreinterpretq_u32_u8`. -/
def vreinterpretq (v : Uint8x16) : Uint32x4 := fun i =>
  word (v ⟨4 * i, by omega⟩) (v ⟨4 * i + 1, by omega⟩) (v ⟨4 * i + 2, by omega⟩)
    (v ⟨4 * i + 3, by omega⟩)

/-! ### The pass -/

def mulC : UInt32 := 2654435761
def mulK : Fin 4 → UInt32 := ![0x9E3779B1, 0x85EBCA77, 0xC2B2AE3D, 0x27D4EB2F]

/-- The accumulator after one group. -/
def accumulate (acc : Uint32x4) (s : Uint8x16x4) : Uint32x4 := fun i =>
  acc i * mulC + vreinterpretq (s 0) i * mulK 0 + vreinterpretq (s 1) i * mulK 1 +
    vreinterpretq (s 2) i * mulK 2 + vreinterpretq (s 3) i * mulK 3

/-- R' = G, G' = B, B' = R, A' = A. -/
def turned (px : Uint8x16x4) : Uint8x16x4 := ![px 1, px 2, px 0, px 3]

/-- The loop over groups of sixteen pixels, `n` of them. -/
def processGroups (doRotate : Bool) : ℕ → Uint32x4 → List UInt8 → List UInt8 × Uint32x4
  | 0, acc, b => (b, acc)
  | n + 1, acc, b =>
    let px := vld4q b
    let s := if doRotate then turned px else px
    let stored := if doRotate then vst4q s else b.take 64
    let r := processGroups doRotate n (accumulate acc s) (b.drop 64)
    (stored ++ r.1, r.2)

/-- The hash of the groups. -/
def lanesHash (acc : Uint32x4) : UInt32 :=
  acc 0 * 1 + acc 1 * 2246822519 + acc 2 * 3266489917 + acc 3 * 668265263

/-- The turn of one pixel, as a word. -/
def turnWord (v : UInt32) : UInt32 :=
  (v &&& (0xFF000000 : UInt32)) ||| ((v &&& (0x00FFFF00 : UInt32)) >>> 8) |||
    ((v &&& (0x000000FF : UInt32)) <<< 16)

/-- The loop over the remaining pixels, `n` of them. -/
def processTail (doRotate : Bool) : ℕ → UInt32 → List UInt8 → List UInt8 × UInt32
  | 0, h, b => (b, h)
  | n + 1, h, b =>
    let v := word (byteAt b 0) (byteAt b 1) (byteAt b 2) (byteAt b 3)
    let v' := if doRotate then turnWord v else v
    let stored := if doRotate then wordBytes v' else b.take 4
    let r := processTail doRotate n (h * mulC + v') (b.drop 4)
    (stored ++ r.1, r.2)

/-- `process`: the memory it leaves, and the hash. -/
def process (b : List UInt8) (npix : ℕ) (doRotate : Bool) : List UInt8 × UInt32 :=
  let groups := npix / 16
  let r := processGroups doRotate groups (fun _ => 0) b
  let t := processTail doRotate (npix % 16) (lanesHash r.2) (r.1.drop (64 * groups))
  (r.1.take (64 * groups) ++ t.1, t.2)

/-! ### What it does to the picture -/

/-- The first `n` pixels turned from `[R, G, B, A]` to `[G, B, R, A]`. -/
def turnPixels : ℕ → List UInt8 → List UInt8
  | n + 1, r :: g :: b :: a :: rest => g :: b :: r :: a :: turnPixels n rest
  | _, bytes => bytes

@[simp] theorem length_turnPixels (n : ℕ) (b : List UInt8) :
    (turnPixels n b).length = b.length := by
  fun_induction turnPixels n b <;> simp_all

/-- Two stretches of pixels, one after the other. -/
theorem turnPixels_add (m n : ℕ) {b : List UInt8} (h : 4 * m ≤ b.length) :
    turnPixels (m + n) b = turnPixels m (b.take (4 * m)) ++ turnPixels n (b.drop (4 * m)) := by
  induction m generalizing b with
  | zero => simp [turnPixels]
  | succ m ih =>
    match b, h with
    | r :: g :: bl :: a :: rest, h =>
      have hrest : 4 * m ≤ rest.length := by simp at h; omega
      rw [show m + 1 + n = (m + n) + 1 by omega, show 4 * (m + 1) = 4 * m + 4 by omega]
      simp [turnPixels, ih hrest]

/-! ### Words and registers -/

theorem wordBytes_word (b₀ b₁ b₂ b₃ : UInt8) : wordBytes (word b₀ b₁ b₂ b₃) = [b₀, b₁, b₂, b₃] := by
  have hbits : ∀ v w : UInt8, (∀ i < 8, v.toBitVec.getLsbD i = w.toBitVec.getLsbD i) → v = w :=
    fun v w h => UInt8.toBitVec_inj.mp (BitVec.eq_of_getLsbD_eq h)
  simp only [wordBytes, List.cons.injEq, and_true]
  refine ⟨hbits _ _ ?_, hbits _ _ ?_, hbits _ _ ?_, hbits _ _ ?_⟩
  all_goals
    intro i hi
    simp only [word, UInt32.toBitVec_or, UInt32.toBitVec_shiftLeft, UInt32.toBitVec_shiftRight,
      UInt8.toBitVec_toUInt32, UInt32.toBitVec_toUInt8, UInt32.toBitVec_ofNat,
      BitVec.ofNat_eq_ofNat, BitVec.reduceMod, BitVec.shiftLeft_eq', BitVec.ushiftRight_eq',
      BitVec.toNat_ofNat, Nat.reducePow, Nat.reduceMod, BitVec.getLsbD_setWidth,
      BitVec.getLsbD_ushiftRight, BitVec.getLsbD_or, BitVec.getLsbD_shiftLeft]
    grind

theorem word_wordBytes (v : UInt32) :
    word v.toUInt8 (v >>> 8).toUInt8 (v >>> 16).toUInt8 (v >>> 24).toUInt8 = v := by
  apply UInt32.toBitVec_inj.mp
  refine BitVec.eq_of_getLsbD_eq fun i hi => ?_
  simp only [word, UInt32.toBitVec_or, UInt32.toBitVec_shiftLeft, UInt32.toBitVec_shiftRight,
    UInt8.toBitVec_toUInt32, UInt32.toBitVec_toUInt8, UInt32.toBitVec_ofNat,
    BitVec.ofNat_eq_ofNat, BitVec.reduceMod, BitVec.shiftLeft_eq', BitVec.ushiftRight_eq',
    BitVec.toNat_ofNat, Nat.reducePow, Nat.reduceMod, BitVec.getLsbD_setWidth,
    BitVec.getLsbD_ushiftRight, BitVec.getLsbD_or, BitVec.getLsbD_shiftLeft]
  grind

/-- The bits of a mask. -/
theorem getLsbD_mask (m : BitVec 32) (lo hi : ℕ) (hle : hi ≤ 32)
    (h : ∀ i < 32, m.getLsbD i = decide (lo ≤ i ∧ i < hi)) (i : ℕ) :
    m.getLsbD i = decide (lo ≤ i ∧ i < hi) := by
  by_cases hi : i < 32
  · exact h i hi
  · rw [BitVec.getLsbD_of_ge _ _ (by omega), eq_comm, decide_eq_false_iff_not]
    omega

/-- Turning the word turns the pixel. -/
theorem turnWord_word (r g b a : UInt8) : turnWord (word r g b a) = word g b r a := by
  have hlow := getLsbD_mask 0x000000FF 0 8 (by decide) (by decide)
  have hmid := getLsbD_mask 0x00FFFF00 8 24 (by decide) (by decide)
  have hhigh := getLsbD_mask 0xFF000000 24 32 (by decide) (by decide)
  apply UInt32.toBitVec_inj.mp
  refine BitVec.eq_of_getLsbD_eq fun i hi => ?_
  simp only [turnWord, word, UInt32.toBitVec_or, UInt32.toBitVec_and, UInt32.toBitVec_shiftLeft,
    UInt32.toBitVec_shiftRight, UInt8.toBitVec_toUInt32, UInt32.toBitVec_ofNat,
    BitVec.ofNat_eq_ofNat, BitVec.reduceMod, BitVec.shiftLeft_eq', BitVec.ushiftRight_eq',
    BitVec.toNat_ofNat, Nat.reducePow, Nat.reduceMod, BitVec.getLsbD_setWidth,
    BitVec.getLsbD_ushiftRight, BitVec.getLsbD_or, BitVec.getLsbD_and, BitVec.getLsbD_shiftLeft]
  -- the byte that bit `i` lies in decides which of the masks lets it through
  grind

theorem byteAt_append {x y : List UInt8} {i : ℕ} (h : i < x.length) :
    byteAt (x ++ y) i = byteAt x i := by
  rw [byteAt, byteAt, List.getElem?_append_left h]

theorem byteAt_take {b : List UInt8} {i n : ℕ} (h : i < n) : byteAt (b.take n) i = byteAt b i := by
  rw [byteAt, byteAt, List.getElem?_take_of_lt h]

theorem getElem_eq_byteAt {b : List UInt8} {i : ℕ} (h : i < b.length) : b[i] = byteAt b i := by
  rw [byteAt, List.getElem?_eq_getElem h, Option.getD_some]

@[simp] theorem length_vst4q (v : Uint8x16x4) : (vst4q v).length = 64 := List.length_ofFn

/-- Loading what was stored. -/
theorem vld4q_vst4q (v : Uint8x16x4) (rest : List UInt8) : vld4q (vst4q v ++ rest) = v := by
  funext k j
  have hlt : 4 * j.val + k.val < (vst4q v).length := by
    rw [length_vst4q]
    omega
  have hk : (⟨(4 * j.val + k.val) % 4, Nat.mod_lt _ (by decide)⟩ : Fin 4) = k :=
    Fin.ext (show (4 * j.val + k.val) % 4 = k.val by omega)
  have hj : (⟨(4 * j.val + k.val) / 4, by omega⟩ : Fin 16) = j :=
    Fin.ext (show (4 * j.val + k.val) / 4 = j.val by omega)
  rw [vld4q, byteAt_append hlt, ← getElem_eq_byteAt hlt]
  simp only [vst4q, List.getElem_ofFn]
  rw [hk, hj]

/-- A load sees sixty-four bytes. -/
theorem vld4q_append {x : List UInt8} (hx : 64 ≤ x.length) (y : List UInt8) :
    vld4q (x ++ y) = vld4q x := by
  funext k j
  rw [vld4q, vld4q, byteAt_append (by omega)]

/-- Where the byte at `i` of a turned picture comes from. -/
def turnIndex (i : ℕ) : ℕ := 4 * (i / 4) + if i % 4 = 3 then 3 else (i % 4 + 1) % 3

theorem byteAt_turnPixels {n : ℕ} {b : List UInt8} (h : 4 * n ≤ b.length) {i : ℕ} (hi : i < 4 * n) :
    byteAt (turnPixels n b) i = byteAt b (turnIndex i) := by
  induction n generalizing b i with
  | zero => omega
  | succ n ih =>
    match b, h with
    | r :: g :: bl :: a :: rest, h =>
      have hrest : 4 * n ≤ rest.length := by simp at h; omega
      rcases Nat.lt_or_ge i 4 with hlt | hge
      · interval_cases i <;> rfl
      · obtain ⟨j, rfl⟩ := Nat.exists_eq_add_of_le' hge
        have hj : turnIndex (j + 4) = turnIndex j + 4 := by
          simp only [turnIndex]
          split_ifs <;> omega
        rw [hj]
        exact ih hrest (by omega)

theorem turned_vld4q (b : List UInt8) {k : ℕ} (hk : k < 4) (j : Fin 16) :
    turned (vld4q b) ⟨k, hk⟩ j = byteAt b (4 * j + if k = 3 then 3 else (k + 1) % 3) := by
  interval_cases k <;> rfl

/-- One group of pixels turned through the registers. -/
theorem vst4q_turned {b : List UInt8} (h : 64 ≤ b.length) :
    vst4q (turned (vld4q b)) = turnPixels 16 (b.take 64) := by
  have hlen : (b.take 64).length = 64 := by simp; omega
  refine List.ext_getElem (by simp [hlen]) fun i hi hi' => ?_
  have hlt : i < 64 := by simpa using hi
  have hidx : turnIndex i < 64 := by
    simp only [turnIndex]
    split_ifs <;> omega
  rw [getElem_eq_byteAt hi', byteAt_turnPixels (by omega) (by omega), byteAt_take hidx]
  simp only [vst4q, List.getElem_ofFn]
  exact turned_vld4q b (Nat.mod_lt _ (by decide)) _

/-! ### The pass without turning -/

theorem processGroups_false_bytes (n : ℕ) (acc : Uint32x4) (b : List UInt8) :
    (processGroups false n acc b).1 = b := by
  induction n generalizing acc b with
  | zero => rfl
  | succ n ih => simp [processGroups, ih]

theorem processTail_false_bytes (n : ℕ) (h : UInt32) (b : List UInt8) :
    (processTail false n h b).1 = b := by
  induction n generalizing h b with
  | zero => rfl
  | succ n ih => simp [processTail, ih]

/-- **Hashing changes nothing.** -/
theorem process_false_bytes (b : List UInt8) (npix : ℕ) : (process b npix false).1 = b := by
  simp [process, processGroups_false_bytes, processTail_false_bytes]

/-! ### The pass with turning -/

theorem processGroups_true_bytes (n : ℕ) (acc : Uint32x4) {b : List UInt8}
    (h : 64 * n ≤ b.length) : (processGroups true n acc b).1 = turnPixels (16 * n) b := by
  induction n generalizing acc b with
  | zero => simp [processGroups, turnPixels]
  | succ n ih =>
    have hadd := turnPixels_add 16 (16 * n) (b := b) (by omega)
    rw [show 16 * (n + 1) = 16 + 16 * n by omega, hadd]
    simp only [processGroups, if_true]
    rw [ih _ (by simp; omega), vst4q_turned (by omega)]

theorem processTail_true_bytes (n : ℕ) (h : UInt32) {b : List UInt8} (hb : 4 * n ≤ b.length) :
    (processTail true n h b).1 = turnPixels n b := by
  induction n generalizing h b with
  | zero => simp [processTail, turnPixels]
  | succ n ih =>
    match b, hb with
    | r :: g :: bl :: a :: rest, hb =>
      have hrest : 4 * n ≤ rest.length := by simp at hb; omega
      have hturn : wordBytes (turnWord (word r g bl a)) = [g, bl, r, a] := by
        rw [turnWord_word, wordBytes_word]
      simp [processTail, turnPixels, byteAt, hturn, ih _ hrest]

/-- **Turning is pixel by pixel**, in the vector path and in the tail alike. -/
theorem process_true_bytes {b : List UInt8} {npix : ℕ} (h : 4 * npix ≤ b.length) :
    (process b npix true).1 = turnPixels npix b := by
  have hsplit : npix = 16 * (npix / 16) + npix % 16 := (Nat.div_add_mod npix 16).symm
  have hgroups : (processGroups true (npix / 16) (fun _ => 0) b).1 =
      turnPixels (16 * (npix / 16)) b := processGroups_true_bytes _ _ (by omega)
  have hadd := turnPixels_add (16 * (npix / 16)) (npix % 16) (b := b) (by omega)
  have hlen : (turnPixels (16 * (npix / 16)) (b.take (4 * (16 * (npix / 16))))).length =
      64 * (npix / 16) := by
    rw [length_turnPixels, List.length_take]
    omega
  -- the groups leave what follows them alone
  have hfirst : turnPixels (16 * (npix / 16)) b =
      turnPixels (16 * (npix / 16)) (b.take (4 * (16 * (npix / 16)))) ++
        b.drop (4 * (16 * (npix / 16))) := by
    have h0 := turnPixels_add (16 * (npix / 16)) 0 (b := b) (by omega)
    simpa [turnPixels] using h0
  simp only [process]
  rw [hgroups, hfirst, List.take_left' hlen, List.drop_left' hlen,
    processTail_true_bytes _ _ (by simp; omega), ← hadd, ← hsplit]

/-! ### The hash that is left and the hash that is found -/

/-- The groups do not see what follows them. -/
theorem processGroups_append (doRotate : Bool) (n : ℕ) (acc : Uint32x4) {x : List UInt8}
    (hx : x.length = 64 * n) (y : List UInt8) :
    processGroups doRotate n acc (x ++ y) =
      ((processGroups doRotate n acc x).1 ++ y, (processGroups doRotate n acc x).2) := by
  induction n generalizing acc x with
  | zero => simp [processGroups, List.length_eq_zero_iff.mp hx]
  | succ n ih =>
    have hload : vld4q (x ++ y) = vld4q x := vld4q_append (by omega) y
    have hdrop : (x ++ y).drop 64 = x.drop 64 ++ y := List.drop_append_of_le_length (by omega)
    have htake : (x ++ y).take 64 = x.take 64 := List.take_append_of_le_length (by omega)
    simp only [processGroups, hload, hdrop, htake, ih _ (show (x.drop 64).length = 64 * n by
      rw [List.length_drop]; omega), List.append_assoc]

/-- Going over turned groups again, only hashing. -/
theorem processGroups_again (n : ℕ) (acc : Uint32x4) (b : List UInt8) :
    (processGroups false n acc (processGroups true n acc b).1).2 =
      (processGroups true n acc b).2 := by
  induction n generalizing acc b with
  | zero => rfl
  | succ n ih =>
    have hlen : (vst4q (turned (vld4q b))).length = 64 := length_vst4q _
    simp only [processGroups, if_true, if_false, Bool.false_eq_true]
    rw [vld4q_vst4q, List.drop_left' hlen]
    exact ih _ _

theorem processTail_again (n : ℕ) (h : UInt32) (b : List UInt8) :
    (processTail false n h (processTail true n h b).1).2 = (processTail true n h b).2 := by
  induction n generalizing h b with
  | zero => rfl
  | succ n ih =>
    have hload : ∀ (v : UInt32) (rest : List UInt8),
        word (byteAt (wordBytes v ++ rest) 0) (byteAt (wordBytes v ++ rest) 1)
          (byteAt (wordBytes v ++ rest) 2) (byteAt (wordBytes v ++ rest) 3) = v :=
      fun v rest => word_wordBytes v
    have hdrop : ∀ (v : UInt32) (rest : List UInt8), (wordBytes v ++ rest).drop 4 = rest :=
      fun v rest => rfl
    simp only [processTail, if_true, if_false, Bool.false_eq_true]
    rw [hload, hdrop]
    exact ih _ _

/-- **The hash the pass leaves is the hash it finds** when nobody has written since. -/
theorem process_again {b : List UInt8} {npix : ℕ} (h : 4 * npix ≤ b.length) :
    process (process b npix true).1 npix false = process b npix true := by
  obtain ⟨x, y, hx, rfl⟩ : ∃ x y, x.length = 64 * (npix / 16) ∧ b = x ++ y :=
    ⟨b.take (64 * (npix / 16)), b.drop (64 * (npix / 16)), by rw [List.length_take]; omega,
      (List.take_append_drop _ b).symm⟩
  have hlen : (processGroups true (npix / 16) (fun _ => 0) x).1.length = 64 * (npix / 16) := by
    rw [processGroups_true_bytes _ _ (by omega), length_turnPixels, hx]
  refine Prod.ext (process_false_bytes _ _) ?_
  simp only [process, processGroups_append true _ _ hx, List.take_left' hlen,
    List.drop_left' hlen]
  rw [processGroups_append false _ _ hlen, processGroups_false_bytes, processGroups_again,
    List.drop_left' hlen, processTail_again]

/-! ### The pass, pixel by pixel -/

/-- The four bytes of a pixel. -/
structure Pixel where
  r : UInt8
  g : UInt8
  b : UInt8
  a : UInt8
  deriving DecidableEq, Repr

/-- The pixel number `i`. -/
def pixel (b : List UInt8) (i : ℕ) : Pixel :=
  ⟨byteAt b (4 * i), byteAt b (4 * i + 1), byteAt b (4 * i + 2), byteAt b (4 * i + 3)⟩

/-- From `[R, G, B, A]` to `[G, B, R, A]`. -/
def Pixel.turn (p : Pixel) : Pixel := ⟨p.g, p.b, p.r, p.a⟩

theorem turnIndex_mul_add {k : ℕ} (hk : k < 4) (i : ℕ) :
    turnIndex (4 * i + k) = 4 * i + if k = 3 then 3 else (k + 1) % 3 := by
  have hdiv : (4 * i + k) / 4 = i := by omega
  have hmod : (4 * i + k) % 4 = k := by omega
  rw [turnIndex, hdiv, hmod]

theorem pixel_turnPixels {n : ℕ} {b : List UInt8} (h : 4 * n ≤ b.length) {i : ℕ} (hi : i < n) :
    pixel (turnPixels n b) i = (pixel b i).turn := by
  have hbyte : ∀ k < 4, byteAt (turnPixels n b) (4 * i + k) =
      byteAt b (4 * i + if k = 3 then 3 else (k + 1) % 3) := by
    intro k hk
    rw [byteAt_turnPixels h (by omega), turnIndex_mul_add hk]
  simp only [pixel, Pixel.turn, Pixel.mk.injEq]
  exact ⟨hbyte 0 (by decide), hbyte 1 (by decide), hbyte 2 (by decide), hbyte 3 (by decide)⟩

/-- What follows the pixels stays. -/
theorem drop_turnPixels (n : ℕ) (b : List UInt8) :
    (turnPixels n b).drop (4 * n) = b.drop (4 * n) := by
  fun_induction turnPixels n b with
  | case1 n r g b a rest ih =>
    rw [show 4 * (n + 1) = 4 * n + 4 by omega]
    exact ih
  | case2 n b h => rfl

/-- Three turns are none. -/
theorem turnPixels_three (n : ℕ) (b : List UInt8) :
    turnPixels n (turnPixels n (turnPixels n b)) = b := by
  fun_induction turnPixels n b with
  | case1 n r g b a rest ih => simp only [turnPixels, ih]
  | case2 n b h =>
    have hstop : turnPixels n b = b := by
      rw [turnPixels]
      exact h
    rw [hstop, hstop]

/-- **What the pass means.** With `doRotate` it turns each of the first `npix` pixels and leaves
everything else; three passes restore the picture; without `doRotate` it changes nothing, and finds
the hash that the pass before it has left. -/
theorem process_meaning {b : List UInt8} {npix : ℕ} (h : 4 * npix ≤ b.length) :
    (∀ i < npix, pixel (process b npix true).1 i = (pixel b i).turn) ∧
      (process b npix true).1.length = b.length ∧
      (process b npix true).1.drop (4 * npix) = b.drop (4 * npix) ∧
      (process (process (process b npix true).1 npix true).1 npix true).1 = b ∧
      (process b npix false).1 = b ∧
      (process (process b npix true).1 npix false).2 = (process b npix true).2 := by
  have hturn : ∀ {c : List UInt8}, c.length = b.length →
      (process c npix true).1 = turnPixels npix c := fun hc => process_true_bytes (by omega)
  have hthree : (process (process (process b npix true).1 npix true).1 npix true).1 = b := by
    rw [hturn rfl, hturn (length_turnPixels _ _), hturn (by simp only [length_turnPixels]),
      turnPixels_three]
  refine ⟨?_, ?_, ?_, hthree, process_false_bytes b npix, ?_⟩
  · intro i hi
    rw [hturn rfl, pixel_turnPixels h hi]
  · rw [hturn rfl, length_turnPixels]
  · rw [hturn rfl, drop_turnPixels]
  · rw [process_again h]

/-- Seventeen pixels, one more than a group, and a byte that belongs to none of them. -/
theorem process_meaning_seventeen :
    pixel (process ((List.range 69).map Nat.toUInt8) 17 true).1 16 = ⟨65, 66, 64, 67⟩ ∧
      byteAt (process ((List.range 69).map Nat.toUInt8) 17 true).1 68 = 68 := by
  have hlen : 4 * 17 ≤ ((List.range 69).map Nat.toUInt8).length := by simp
  obtain ⟨hpixels, -, hrest, -⟩ := process_meaning hlen
  refine ⟨hpixels 16 (by decide), ?_⟩
  have hbyte : ∀ c : List UInt8, byteAt c 68 = byteAt (c.drop (4 * 17)) 0 := by
    intro c
    rw [byteAt, byteAt, List.getElem?_drop]
  rw [hbyte, hrest]
  decide

/-! ### Pictures that turning leaves as they are -/

/-- The first `n` pixels have one value for R, G and B. -/
def Grey (n : ℕ) (b : List UInt8) : Prop :=
  ∀ i < n, byteAt b (4 * i) = byteAt b (4 * i + 1) ∧ byteAt b (4 * i + 1) = byteAt b (4 * i + 2)

instance (n : ℕ) (b : List UInt8) : Decidable (Grey n b) :=
  inferInstanceAs (Decidable (∀ i < n, _ ∧ _))

theorem turnPixels_eq_self_iff {n : ℕ} {b : List UInt8} (h : 4 * n ≤ b.length) :
    turnPixels n b = b ↔ Grey n b := by
  induction n generalizing b with
  | zero => simp [turnPixels, Grey]
  | succ n ih =>
    match b, h with
    | r :: g :: bl :: a :: rest, h =>
      have hrest : 4 * n ≤ rest.length := by simp at h; omega
      have hsplit : Grey (n + 1) (r :: g :: bl :: a :: rest) ↔ (r = g ∧ g = bl) ∧ Grey n rest := by
        constructor
        · intro hg
          exact ⟨hg 0 (by omega), fun i hi => hg (i + 1) (by omega)⟩
        · rintro ⟨h0, hg⟩ i hi
          cases i with
          | zero => exact h0
          | succ i => exact hg i (by omega)
      rw [hsplit, ← ih hrest]
      simp only [turnPixels, List.cons.injEq, true_and]
      constructor
      · rintro ⟨rfl, rfl, -, hrec⟩
        exact ⟨⟨rfl, rfl⟩, hrec⟩
      · rintro ⟨⟨rfl, rfl⟩, hrec⟩
        exact ⟨rfl, rfl, rfl, hrec⟩

end Shim

end A1000

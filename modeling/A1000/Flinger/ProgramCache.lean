import A1000.Lib.Memo
import A1000.Lib.Run
import Mathlib.Data.Rat.Defs
import Mathlib.Algebra.Order.Ring.Rat

/-!
# The shader cache

SurfaceFlinger draws a layer with a GL program, whose shaders it generates from a key; the programs
are kept by their keys. On this device the last line of the fragment shader permutes the colour
channels. Whether it is there is one bit of the key, but which permutation it is stands in the
property `debug.sf.swz`, which is read when the shader is generated.

## Main definitions

* `RenderEngine.Key`, `RenderEngine.computeKey` — the key of a description
* `RenderEngine.generateVertexShader`, `RenderEngine.generateFragmentShader` — the shaders of a key
* `RenderEngine.primeCache`, `RenderEngine.useProgram` — the cache
* `RenderEngine.Transparent` — what is wanted of a use

## Main results

* `RenderEngine.generateFragmentShader_inj` — the shader depends on the property as far as it is a
  permutation, and only when the key asks for one
* `RenderEngine.follows_of_run` — the cache keeps what was generated when a key was first used
* `RenderEngine.transparent_iff` — when the program used is the one that would be generated
-/

namespace A1000

namespace RenderEngine

open Memo StepSystem

/-! ### Text -/

/-- A formatter, which adds the ends of the lines and the indentation. -/
structure Formatter where
  mString : String
  mIndent : ℕ
  deriving DecidableEq, Repr

namespace Formatter

/-- `Formatter()`. -/
def empty : Formatter := ⟨"", 0⟩

/-- `operator <<` of a line. -/
def line (out : Formatter) (s : String) : Formatter :=
  ⟨out.mString ++ String.join (List.replicate out.mIndent "    ") ++ s ++ "\n", out.mIndent⟩

/-- `operator <<` of `indent`. -/
def indent (f : Formatter) : Formatter := ⟨f.mString, f.mIndent + 1⟩

/-- `operator <<` of `dedent`. -/
def dedent (f : Formatter) : Formatter := ⟨f.mString, f.mIndent - 1⟩

end Formatter

/-! ### Keys -/

/-- The key of a program. -/
structure Key where
  mKey : UInt32
  deriving DecidableEq, Repr

namespace Key

def BLEND_PREMULT : UInt32 := 0x00000001
def BLEND_NORMAL : UInt32 := 0x00000000
def BLEND_MASK : UInt32 := 0x00000001

def OPACITY_OPAQUE : UInt32 := 0x00000002
def OPACITY_TRANSLUCENT : UInt32 := 0x00000000
def OPACITY_MASK : UInt32 := 0x00000002

def PLANE_ALPHA_LT_ONE : UInt32 := 0x00000004
def PLANE_ALPHA_EQ_ONE : UInt32 := 0x00000000
def PLANE_ALPHA_MASK : UInt32 := 0x00000004

def TEXTURE_OFF : UInt32 := 0x00000000
def TEXTURE_EXT : UInt32 := 0x00000008
def TEXTURE_2D : UInt32 := 0x00000010
def TEXTURE_MASK : UInt32 := 0x00000018

def COLOR_MATRIX_OFF : UInt32 := 0x00000000
def COLOR_MATRIX_ON : UInt32 := 0x00000020
def COLOR_MATRIX_MASK : UInt32 := 0x00000020

def WIDE_GAMUT_OFF : UInt32 := 0x00000000
def WIDE_GAMUT_ON : UInt32 := 0x00000040
def WIDE_GAMUT_MASK : UInt32 := 0x00000040

def SWIZZLE_OFF : UInt32 := 0x00000000
def SWIZZLE_ON : UInt32 := 0x00000080
def SWIZZLE_MASK : UInt32 := 0x00000080

/-- `Key()`. -/
def zero : Key := ⟨0⟩

def set (key : Key) (mask value : UInt32) : Key := ⟨(key.mKey &&& ~~~mask) ||| value⟩

def isTexturing (key : Key) : Bool := key.mKey &&& TEXTURE_MASK ≠ TEXTURE_OFF

def getTextureTarget (key : Key) : UInt32 := key.mKey &&& TEXTURE_MASK

def isPremultiplied (key : Key) : Bool := key.mKey &&& BLEND_MASK = BLEND_PREMULT

def isOpaque (key : Key) : Bool := key.mKey &&& OPACITY_MASK = OPACITY_OPAQUE

def hasPlaneAlpha (key : Key) : Bool := key.mKey &&& PLANE_ALPHA_MASK = PLANE_ALPHA_LT_ONE

def hasColorMatrix (key : Key) : Bool := key.mKey &&& COLOR_MATRIX_MASK = COLOR_MATRIX_ON

def isWideGamut (key : Key) : Bool := key.mKey &&& WIDE_GAMUT_MASK = WIDE_GAMUT_ON

def hasSwizzle (key : Key) : Bool := key.mKey &&& SWIZZLE_MASK = SWIZZLE_ON

end Key

def GL_TEXTURE_2D : UInt32 := 0x0DE1

def GL_TEXTURE_EXTERNAL_OES : UInt32 := 0x8D65

/-- What the key depends on of a description. -/
structure Description where
  mTextureEnabled : Bool
  mTextureTarget : UInt32
  mPlaneAlpha : ℚ
  mPremultipliedAlpha : Bool
  mOpaque : Bool
  mColorMatrixEnabled : Bool
  mIsWideGamut : Bool
  deriving DecidableEq, Repr

/-- `ProgramCache::computeKey`. -/
def computeKey (gSwizzleEnabled : Bool) (description : Description) : Key :=
  Key.zero
    |>.set Key.TEXTURE_MASK
      (if !description.mTextureEnabled then Key.TEXTURE_OFF
      else if description.mTextureTarget = GL_TEXTURE_EXTERNAL_OES then Key.TEXTURE_EXT
      else if description.mTextureTarget = GL_TEXTURE_2D then Key.TEXTURE_2D
      else Key.TEXTURE_OFF)
    |>.set Key.PLANE_ALPHA_MASK
      (if description.mPlaneAlpha < 1 then Key.PLANE_ALPHA_LT_ONE else Key.PLANE_ALPHA_EQ_ONE)
    |>.set Key.BLEND_MASK
      (if description.mPremultipliedAlpha then Key.BLEND_PREMULT else Key.BLEND_NORMAL)
    |>.set Key.OPACITY_MASK
      (if description.mOpaque then Key.OPACITY_OPAQUE else Key.OPACITY_TRANSLUCENT)
    |>.set Key.COLOR_MATRIX_MASK
      (if description.mColorMatrixEnabled then Key.COLOR_MATRIX_ON else Key.COLOR_MATRIX_OFF)
    |>.set Key.WIDE_GAMUT_MASK
      (if description.mIsWideGamut then Key.WIDE_GAMUT_ON else Key.WIDE_GAMUT_OFF)
    |>.set Key.SWIZZLE_MASK (if gSwizzleEnabled then Key.SWIZZLE_ON else Key.SWIZZLE_OFF)

/-! ### Shaders -/

/-- `ProgramCache::generateVertexShader`. -/
def generateVertexShader (needs : Key) : String :=
  let vs := Formatter.empty
  let vs := if needs.isTexturing then
      vs.line "attribute vec4 texCoords;"
        |>.line "varying vec2 outTexCoords;"
    else vs
  let vs := vs.line "attribute vec4 position;"
    |>.line "uniform mat4 projection;"
    |>.line "uniform mat4 texture;"
    |>.line "void main(void) \x7b" |>.indent
    |>.line "gl_Position = projection * position;"
  let vs := if needs.isTexturing then
      vs.line "outTexCoords = (texture * texCoords).st;"
    else vs
  (vs.dedent.line "\x7d").mString

/-- The transfer functions in wide gamut mode. -/
def wideGamutTransfer : String := "
                  float OETF_sRGB(const float linear) \x7b
                      return linear <= 0.0031308 ?
                              linear * 12.92 : (pow(linear, 1.0 / 2.4) * 1.055) - 0.055;
                  \x7d

                  vec3 OETF_sRGB(const vec3 linear) \x7b
                      return vec3(OETF_sRGB(linear.r), OETF_sRGB(linear.g), OETF_sRGB(linear.b));
                  \x7d

                  vec3 OETF_scRGB(const vec3 linear) \x7b
                      return sign(linear.rgb) * OETF_sRGB(abs(linear.rgb));
                  \x7d

                  float EOTF_sRGB(float srgb) \x7b
                      return srgb <= 0.04045 ? srgb / 12.92 : pow((srgb + 0.055) / 1.055, 2.4);
                  \x7d

                  vec3 EOTF_sRGB(const vec3 srgb) \x7b
                      return vec3(EOTF_sRGB(srgb.r), EOTF_sRGB(srgb.g), EOTF_sRGB(srgb.b));
                  \x7d

                  vec3 EOTF_scRGB(const vec3 srgb) \x7b
                      return sign(srgb.rgb) * EOTF_sRGB(abs(srgb.rgb));
                  \x7d
            "

/-- The transfer functions otherwise, which do nothing. -/
def plainTransfer : String := "
                  vec3 OETF_scRGB(const vec3 linear) \x7b
                      return linear;
                  \x7d

                  vec3 EOTF_scRGB(const vec3 srgb) \x7b
                      return srgb;
                  \x7d
            "

/-- The fragment shader up to the permutation. -/
def fragmentColor (needs : Key) : Formatter :=
  let fs := Formatter.empty
  let fs := if needs.getTextureTarget = Key.TEXTURE_EXT then
      fs.line "#extension GL_OES_EGL_image_external : require"
    else fs
  let fs := fs.line "precision mediump float;"
  let fs := if needs.getTextureTarget = Key.TEXTURE_EXT then
      fs.line "uniform samplerExternalOES sampler;"
        |>.line "varying vec2 outTexCoords;"
    else if needs.getTextureTarget = Key.TEXTURE_2D then
      fs.line "uniform sampler2D sampler;"
        |>.line "varying vec2 outTexCoords;"
    else if needs.getTextureTarget = Key.TEXTURE_OFF then
      fs.line "uniform vec4 color;"
    else fs
  let fs := if needs.hasPlaneAlpha then fs.line "uniform float alphaPlane;" else fs
  let fs := if needs.hasColorMatrix then fs.line "uniform mat4 colorMatrix;" else fs
  let fs := if needs.hasColorMatrix then
      if needs.isWideGamut then fs.line wideGamutTransfer else fs.line plainTransfer
    else fs
  let fs := fs.line "void main(void) \x7b" |>.indent
  let fs := if needs.isTexturing then
      fs.line "gl_FragColor = texture2D(sampler, outTexCoords);"
    else fs.line "gl_FragColor = color;"
  let fs := if needs.isOpaque then fs.line "gl_FragColor.a = 1.0;" else fs
  let fs := if needs.hasPlaneAlpha then
      if needs.isPremultiplied then fs.line "gl_FragColor *= alphaPlane;"
      else fs.line "gl_FragColor.a *= alphaPlane;"
    else fs
  if needs.hasColorMatrix then
    let fs := if !needs.isOpaque && needs.isPremultiplied then
        fs.line "gl_FragColor.rgb = gl_FragColor.rgb / (gl_FragColor.a + 0.0019);"
      else fs
    let fs := fs.line "vec4 transformed = colorMatrix * vec4(EOTF_scRGB(gl_FragColor.rgb), 1);"
    let fs := fs.line "gl_FragColor.rgb = OETF_scRGB(transformed.rgb);"
    if !needs.isOpaque && needs.isPremultiplied then
      fs.line "gl_FragColor.rgb = gl_FragColor.rgb * (gl_FragColor.a + 0.0019);"
    else fs
  else fs

/-- `property_get`; a property that is not set is empty. -/
def propertyGet (value default : String) : String := if value = "" then default else value

/-- A permutation, or at least three channels. -/
def channels (swz : String) : Bool :=
  swz.length = 3 && swz.toList.all fun c => c = 'r' || c = 'g' || c = 'b'

/-- The permutation that a value of the property `debug.sf.swz` stands for. -/
def swizzle (property : String) : String :=
  let swz := propertyGet property "brg"
  if channels swz then swz else "brg"

/-- `ProgramCache::generateFragmentShader`. -/
def generateFragmentShader (needs : Key) (property : String) : String :=
  let fs := fragmentColor needs
  let fs := if needs.hasSwizzle then
      if swizzle property ≠ "rgb" then
        fs.line ("gl_FragColor.rgb = gl_FragColor." ++ swizzle property ++ ";")
      else fs
    else fs
  (fs.dedent.line "\x7d").mString

/-! ### The cache -/

/-- A program: its key, its shaders, and whether it could be linked. -/
structure Program where
  needs : Key
  vertex : String
  fragment : String
  isValid : Bool
  deriving DecidableEq, Repr

/-- `ProgramCache::generateProgram`, with the property and whether the program links. -/
def generateProgram (needs : Key) (env : String × Bool) : Program :=
  ⟨needs, generateVertexShader needs, generateFragmentShader needs env.1, env.2⟩

/-- The keys for which `primeCache` generates programs: all combinations of four masks. -/
def keyMask : UInt32 :=
  Key.BLEND_MASK ||| Key.OPACITY_MASK ||| Key.PLANE_ALPHA_MASK ||| Key.TEXTURE_MASK

/-- One turn of the loop of `primeCache`; `links` is what linking says. -/
def primeKey (links : Key → Bool) (property : String) (mCache : Table Key Program)
    (keyVal : ℕ) : Table Key Program :=
  let shaderKey := Key.zero.set keyMask (.ofNat keyVal)
  let tex := shaderKey.getTextureTarget
  if tex ≠ Key.TEXTURE_OFF ∧ tex ≠ Key.TEXTURE_EXT ∧ tex ≠ Key.TEXTURE_2D then mCache
  else
    match mCache shaderKey with
    | none =>
      Function.update mCache shaderKey
        (some (generateProgram shaderKey (property, links shaderKey)))
    | some _ => mCache

/-- `ProgramCache::primeCache`. -/
def primeCache (links : Key → Bool) (property : String) : Table Key Program :=
  (List.range (keyMask.toNat + 1)).foldl (primeKey links property) fun _ => none

/-- The flag `gSwizzleEnabled` and the property `debug.sf.swz`. -/
structure Settings where
  gSwizzleEnabled : Bool
  property : String
  deriving DecidableEq, Repr

/-- The settings and the cache. -/
structure Engine where
  settings : Settings
  mCache : Table Key Program

/-- What happens: the flag is set, the property is set, a program is used. A program that is
generated for that may or may not link. -/
inductive Input where
  | setSwizzleEnabled (enabled : Bool)
  | setProperty (value : String)
  | useProgram (description : Description) (links : Bool)
  deriving DecidableEq, Repr

/-- What an input does to the settings. -/
def Settings.after (s : Settings) : Input → Settings
  | .setSwizzleEnabled enabled => { s with gSwizzleEnabled := enabled }
  | .setProperty value => { s with property := value }
  | .useProgram _ _ => s

/-- `ProgramCache::useProgram`: the cache after it, and the program if it is used. -/
def useProgram (s : Engine) (description : Description) (links : Bool) :
    Table Key Program × Option Program :=
  let needs := computeKey s.settings.gSwizzleEnabled description
  match s.mCache needs with
  | some program => (s.mCache, if program.isValid then some program else none)
  | none =>
    let program := generateProgram needs (s.settings.property, links)
    (Function.update s.mCache needs (some program), if program.isValid then some program else none)

/-- One input. -/
def step (s : Engine) (i : Input) : Option (Engine × Option Program) :=
  match i with
  | .useProgram description links =>
    let (mCache, program) := useProgram s description links
    some (⟨s.settings, mCache⟩, program)
  | i => some (⟨s.settings.after i, s.mCache⟩, none)

/-- SurfaceFlinger when the cache has been primed. -/
def start (links : Key → Bool) (property : String) : Engine :=
  ⟨⟨true, property⟩, primeCache links property⟩

/-! ### What is wanted -/

abbrev History := List (Input × Option Program)

/-- The settings after a history that began with `s₀`. -/
def now (s₀ : Settings) (tr : History) : Settings := tr.foldl (fun s e => s.after e.1) s₀

/-- The text of a program. -/
def Program.source (p : Program) : String × String := (p.vertex, p.fragment)

/-- **The program used has the source that would be generated now.** -/
def Transparent (s₀ : Settings) (tr : History) (i : Input) (out : Option Program) : Prop :=
  match i with
  | .useProgram description links => ∀ program, out = some program →
      program.source = (generateProgram (computeKey (now s₀ tr).gSwizzleEnabled description)
        ((now s₀ tr).property, links)).source
  | _ => True

/-- The key of a use, and what a program would be generated with. -/
def Input.use (s : Settings) : Input → Option (Key × String × Bool)
  | .useProgram description links =>
    some (computeKey s.gSwizzleEnabled description, s.property, links)
  | _ => none

/-- The uses of a history. -/
def uses (s₀ : Settings) : History → List (Key × String × Bool)
  | [] => []
  | e :: tr => (e.1.use s₀).toList ++ uses (s₀.after e.1) tr

/-- Where the permutation is on, the property stands for the same one as at the first use of the
key, or what was generated then has not linked. -/
def Fresh (s₀ : Settings) (tr : History) (i : Input) : Prop :=
  match i with
  | .useProgram description _ => (now s₀ tr).gSwizzleEnabled = true →
      ∀ value, firstUse (uses s₀ tr) (computeKey true description) = some (value, true) →
        swizzle value = swizzle (now s₀ tr).property
  | _ => True

theorem now_snoc (s₀ : Settings) (tr : History) (e : Input × Option Program) :
    now s₀ (tr ++ [e]) = (now s₀ tr).after e.1 := by
  rw [now, List.foldl_append]
  rfl

theorem uses_snoc (s₀ : Settings) (tr : History) (e : Input × Option Program) :
    uses s₀ (tr ++ [e]) = uses s₀ tr ++ (e.1.use (now s₀ tr)).toList := by
  induction tr generalizing s₀ with
  | nil => exact List.append_nil _
  | cons e' tr ih =>
    rw [List.cons_append, uses, uses, ih, List.append_assoc]
    rfl

/-! ### What the shader depends on -/

/-- What `set` has written. -/
theorem Key.and_set (key : Key) (mask value : UInt32) :
    (key.set mask value).mKey &&& mask = value &&& mask := by
  rw [Key.set, ← UInt32.toBitVec_inj]
  ext i
  simp only [UInt32.toBitVec_and, UInt32.toBitVec_or, UInt32.toBitVec_not, BitVec.getElem_and,
    BitVec.getElem_or, BitVec.getElem_not]
  cases mask.toBitVec[i] <;> simp

/-- The flag is in the key. -/
theorem hasSwizzle_computeKey (enabled : Bool) (description : Description) :
    (computeKey enabled description).hasSwizzle = enabled := by
  rw [Key.hasSwizzle, computeKey, Key.and_set]
  cases enabled <;> decide

/-- The text that a permutation adds to the shader. -/
def swizzleText (needs : Key) (swz : String) : String :=
  if needs.hasSwizzle = true ∧ swz ≠ "rgb" then
    String.join (List.replicate (fragmentColor needs).mIndent "    ") ++
      ("gl_FragColor.rgb = gl_FragColor." ++ swz ++ ";") ++ "\n"
  else ""

theorem generateFragmentShader_eq (needs : Key) (property : String) :
    generateFragmentShader needs property =
      (fragmentColor needs).mString ++ swizzleText needs (swizzle property) ++
        (String.join (List.replicate ((fragmentColor needs).mIndent - 1) "    ") ++
          ("\x7d" ++ "\n")) := by
  unfold generateFragmentShader swizzleText
  split <;> rename_i hneeds
  · split <;> rename_i hswz
    · rw [if_pos ⟨hneeds, hswz⟩]
      simp only [Formatter.line, Formatter.dedent, String.append_assoc]
    · rw [if_neg fun h => hswz h.2]
      simp only [Formatter.line, Formatter.dedent, String.append_assoc, String.append_empty]
  · rw [if_neg fun h => hneeds h.1]
    simp only [Formatter.line, Formatter.dedent, String.append_assoc, String.append_empty]

/-- Only `rgb` adds nothing. -/
theorem swizzleText_eq_empty_iff {needs : Key} (h : needs.hasSwizzle = true) {swz : String} :
    swizzleText needs swz = "" ↔ swz = "rgb" := by
  unfold swizzleText
  constructor
  · intro htext
    by_contra hswz
    rw [if_pos ⟨h, hswz⟩] at htext
    have hlength := congrArg String.length htext
    rw [String.length_append] at hlength
    exact absurd hlength (Nat.succ_ne_zero _)
  · intro hswz
    rw [if_neg fun h' => h'.2 hswz]

/-- Different permutations add different texts. -/
theorem swizzleText_inj {needs : Key} (h : needs.hasSwizzle = true) {swz swz' : String} :
    swizzleText needs swz = swizzleText needs swz' ↔ swz = swz' := by
  refine ⟨fun htext => ?_, congrArg _⟩
  by_cases hswz : swz = "rgb"
  · rw [(swizzleText_eq_empty_iff h).mpr hswz, eq_comm, swizzleText_eq_empty_iff h] at htext
    rw [hswz, htext]
  · by_cases hswz' : swz' = "rgb"
    · rw [(swizzleText_eq_empty_iff h).mpr hswz', swizzleText_eq_empty_iff h] at htext
      exact absurd htext hswz
    · unfold swizzleText at htext
      rw [if_pos ⟨h, hswz⟩, if_pos ⟨h, hswz'⟩] at htext
      simpa using htext

/-- **What the fragment shader depends on** besides the key. -/
theorem generateFragmentShader_inj (needs : Key) (p q : String) :
    generateFragmentShader needs p = generateFragmentShader needs q ↔
      (needs.hasSwizzle = true → swizzle p = swizzle q) := by
  rw [generateFragmentShader_eq, generateFragmentShader_eq, String.append_left_inj,
    String.append_right_inj]
  by_cases h : needs.hasSwizzle = true
  · rw [swizzleText_inj h]
    exact ⟨fun heq _ => heq, fun heq => heq h⟩
  · unfold swizzleText
    rw [if_neg fun h' => h h'.1, if_neg fun h' => h h'.1]
    exact iff_of_true rfl fun h' => absurd h' h

/-! ### What the cache holds -/

/-- A key that `primeCache` uses. -/
def primedKey (keyVal : ℕ) : Option Key :=
  let shaderKey := Key.zero.set keyMask (.ofNat keyVal)
  let tex := shaderKey.getTextureTarget
  if tex ≠ Key.TEXTURE_OFF ∧ tex ≠ Key.TEXTURE_EXT ∧ tex ≠ Key.TEXTURE_2D then none
  else some shaderKey

/-- The uses that `primeCache` makes of the cache. -/
def primed (links : Key → Bool) (property : String) : List (Key × String × Bool) :=
  (List.range (keyMask.toNat + 1)).filterMap fun keyVal =>
    (primedKey keyVal).map fun key => (key, property, links key)

theorem primeCache_eq (links : Key → Bool) (property : String) :
    primeCache links property =
      (primed links property).foldl (fun t u => (Memo.use generateProgram t u.1 u.2).1)
        fun _ => none := by
  rw [primeCache, primed, List.foldl_filterMap]
  congr 1
  funext t keyVal
  simp only [primeKey, primedKey, Memo.use]
  split
  · rfl
  · simp only [Option.map_some]
    split <;> simp_all

/-- No primed program permutes the channels. -/
theorem hasSwizzle_of_primed {links : Key → Bool} {property : String} {u : Key × String × Bool}
    (h : u ∈ primed links property) : u.1.hasSwizzle = false := by
  obtain ⟨keyVal, hmem, hu⟩ := List.mem_filterMap.mp h
  obtain ⟨key, hkey, rfl⟩ := Option.map_eq_some_iff.mp hu
  have hall : ∀ keyVal ∈ List.range (keyMask.toNat + 1),
      ((primedKey keyVal).map Key.hasSwizzle).getD false = false := by
    decide
  have hone := hall keyVal hmem
  rwa [hkey] at hone

/-- The invariant: the settings are those of the history, and the cache holds what was generated
at the first use of each key. -/
structure Follows (links : Key → Bool) (s₀ : Settings) (tr : History) (s : Engine) : Prop where
  settings : s.settings = now s₀ tr
  remembers : Remembers generateProgram (primed links s₀.property ++ uses s₀ tr) s.mCache

/-- `useProgram` is a use of the cache. -/
theorem useProgram_eq (s : Engine) (description : Description) (links : Bool) :
    let used := Memo.use generateProgram s.mCache
      (computeKey s.settings.gSwizzleEnabled description) (s.settings.property, links)
    useProgram s description links = (used.1, if used.2.isValid then some used.2 else none) := by
  cases hkey : s.mCache (computeKey s.settings.gSwizzleEnabled description) with
  | none => simp only [useProgram, hkey, use_of_none hkey]
  | some program => simp only [useProgram, hkey, use_of_some hkey]

/-- Setting the flag or the property uses no program. -/
theorem Follows.setting {links : Key → Bool} {s₀ : Settings} {tr : History} {s : Engine}
    (h : Follows links s₀ tr s) {i : Input} (hi : i.use (now s₀ tr) = none) :
    Follows links s₀ (tr ++ [(i, none)]) ⟨s.settings.after i, s.mCache⟩ where
  settings := by rw [now_snoc, h.settings]
  remembers := by
    rw [uses_snoc, hi, Option.toList_none, List.append_nil]
    exact h.remembers

theorem Follows.step {links : Key → Bool} {s₀ : Settings} {tr : History} {s t : Engine}
    {i : Input} {out : Option Program} (h : Follows links s₀ tr s)
    (hstep : RenderEngine.step s i = some (t, out)) :
    Follows links s₀ (tr ++ [(i, out)]) t := by
  cases i with
  | setSwizzleEnabled enabled =>
    cases hstep
    exact h.setting rfl
  | setProperty value =>
    cases hstep
    exact h.setting rfl
  | useProgram description l =>
    rw [RenderEngine.step, useProgram_eq] at hstep
    cases hstep
    refine ⟨by rw [now_snoc, h.settings]; rfl, ?_⟩
    rw [uses_snoc, ← List.append_assoc, ← h.settings]
    exact h.remembers.use _ _

/-- **The cache holds what was generated at the first use of each key.** -/
theorem follows_of_run {links : Key → Bool} {property : String} {tr : History} {s : Engine}
    (h : Run step (start links property) tr s) : Follows links ⟨true, property⟩ tr s := by
  refine h.invariant ⟨rfl, ?_⟩ fun hfollows _ hstep => hfollows.step hstep
  rw [uses, List.append_nil, start, primeCache_eq]
  have hnil : Remembers generateProgram [] fun _ => none := remembers_nil
  simpa using hnil.foldl (primed links property)

/-! ### Transparency -/

/-- The source of a program depends on the property as far as the permutation goes. -/
theorem source_inj (needs : Key) (env env' : String × Bool) :
    (generateProgram needs env).source = (generateProgram needs env').source ↔
      (needs.hasSwizzle = true → swizzle env.1 = swizzle env'.1) := by
  rw [Program.source, Program.source, Prod.mk.injEq]
  exact (and_iff_right rfl).trans (generateFragmentShader_inj needs env.1 env'.1)

/-- When the permutation is on, a key was not primed. -/
theorem firstUse_primed {links : Key → Bool} {s₀ : Settings} {tr : History} {key : Key}
    (h : key.hasSwizzle = true) :
    firstUse (primed links s₀.property ++ uses s₀ tr) key = firstUse (uses s₀ tr) key := by
  have hnone : firstUse (primed links s₀.property) key = none := by
    refine firstUse_eq_none fun u hu heq => ?_
    rw [← heq, hasSwizzle_of_primed hu] at h
    cases h
  rw [firstUse_append, hnone, Option.none_or]

/-- What a use shows. -/
theorem transparent_iff_fresh {links : Key → Bool} {s₀ : Settings} {tr : History} {s t : Engine}
    {i : Input} {out : Option Program} (h : Follows links s₀ tr s)
    (hstep : step s i = some (t, out)) : Transparent s₀ tr i out ↔ Fresh s₀ tr i := by
  cases i with
  | setSwizzleEnabled enabled => exact Iff.rfl
  | setProperty value => exact Iff.rfl
  | useProgram description l =>
    rw [step, useProgram_eq] at hstep
    simp only [h.remembers.value] at hstep
    cases hstep
    rw [Transparent, Fresh, h.settings]
    set key := computeKey (now s₀ tr).gSwizzleEnabled description with hkey
    have hswizzle : key.hasSwizzle = (now s₀ tr).gSwizzleEnabled := hasSwizzle_computeKey _ _
    by_cases hon : (now s₀ tr).gSwizzleEnabled = true
    · rw [hon] at hkey hswizzle
      rw [firstUse_primed hswizzle, ← hkey]
      cases hfirst : firstUse (uses s₀ tr) key with
      | none =>
        refine iff_of_true (fun program hprogram => ?_) (by simp)
        obtain ⟨-, heq⟩ := Option.ite_none_right_eq_some.mp hprogram
        obtain rfl := Option.some.inj heq
        rfl
      | some env =>
        obtain ⟨value, valid⟩ := env
        cases valid with
        | false => exact iff_of_true (by simp [generateProgram]) (by simp)
        | true =>
          have hsource := source_inj key (value, true) ((now s₀ tr).property, l)
          simp only [hswizzle, forall_const] at hsource
          simpa [generateProgram, hon] using hsource
    · refine iff_of_true (fun program hprogram => ?_) fun h => absurd h hon
      obtain ⟨-, heq⟩ := Option.ite_none_right_eq_some.mp hprogram
      obtain rfl := Option.some.inj heq
      rw [source_inj, hswizzle]
      exact fun h => absurd h hon

/-- **When the shader cache is transparent.** -/
theorem transparent_iff {links : Key → Bool} {property : String} {tr : History} {s : Engine}
    (h : Run step (start links property) tr s) :
    Always (Transparent ⟨true, property⟩) tr ↔
      Always (fun tr i _ => Fresh ⟨true, property⟩ tr i) tr :=
  h.always_congr fun hrun hstep => transparent_iff_fresh (follows_of_run hrun) hstep

/-- A layer with a texture. -/
def textured : Description := ⟨true, GL_TEXTURE_EXTERNAL_OES, 1, true, true, false, false⟩

/-- Everything can happen at any time. -/
theorem exists_step (s : Engine) (i : Input) : ∃ t out, step s i = some (t, out) := by
  cases i <;> exact ⟨_, _, rfl⟩

/-- A screenshot does not fix the permutation: the property may be changed after it, as long as
nothing has been drawn on the screen. -/
theorem transparent_iff_screenshot :
    ∃ tr s, tr.map Prod.fst = [.setSwizzleEnabled false, .useProgram textured true,
        .setProperty "bgr", .setSwizzleEnabled true, .useProgram textured true] ∧
      Run step (start (fun _ => true) "brg") tr s ∧ Always (Transparent ⟨true, "brg"⟩) tr := by
  obtain ⟨s₁, o₁, h₁⟩ := exists_step (start (fun _ => true) "brg") (.setSwizzleEnabled false)
  obtain ⟨s₂, o₂, h₂⟩ := exists_step s₁ (.useProgram textured true)
  obtain ⟨s₃, o₃, h₃⟩ := exists_step s₂ (.setProperty "bgr")
  obtain ⟨s₄, o₄, h₄⟩ := exists_step s₃ (.setSwizzleEnabled true)
  obtain ⟨s₅, o₅, h₅⟩ := exists_step s₄ (.useProgram textured true)
  have hrun : Run step (start (fun _ => true) "brg") _ s₅ :=
    ((((RunWhere.nil.snoc trivial h₁).snoc trivial h₂).snoc trivial h₃).snoc trivial h₄).snoc
      trivial h₅
  refine ⟨_, _, rfl, hrun, (transparent_iff hrun).mpr ?_⟩
  simp only [always_snoc]
  refine ⟨⟨⟨⟨⟨always_nil, trivial⟩, fun hon => ?_⟩, trivial⟩, trivial⟩, fun _ value hfirst => ?_⟩
  · cases hon
  · have hkey : computeKey false textured ≠ computeKey true textured := by decide
    have hnone : firstUse [(computeKey false textured, "brg", true)] (computeKey true textured) =
        none := if_neg hkey
    cases hnone.symm.trans hfirst

/-- After the property has been changed, a layer is still drawn with the old permutation. -/
theorem transparent_not_always :
    ¬ ∀ (links : Key → Bool) (property : String) (tr : History) (s : Engine),
      Run step (start links property) tr s → Always (Transparent ⟨true, property⟩) tr := by
  intro hall
  obtain ⟨s₁, o₁, h₁⟩ := exists_step (start (fun _ => true) "") (.useProgram textured true)
  obtain ⟨s₂, o₂, h₂⟩ := exists_step s₁ (.setProperty "bgr")
  obtain ⟨s₃, o₃, h₃⟩ := exists_step s₂ (.useProgram textured true)
  have hrun : Run step (start (fun _ => true) "") _ s₂ :=
    (RunWhere.nil.snoc trivial h₁).snoc trivial h₂
  have hlast := (always_snoc.mp (hall _ _ _ _ (hrun.snoc trivial h₃))).2
  have hfresh := (transparent_iff_fresh (follows_of_run hrun) h₃).mp hlast
  have hfirst : firstUse (uses ⟨true, ""⟩ ([] ++ [(.useProgram textured true, o₁)] ++
      [(.setProperty "bgr", o₂)])) (computeKey true textured) = some ("", true) := by
    rfl
  exact absurd (hfresh rfl "" hfirst) (show swizzle "" ≠ swizzle "bgr" by decide)

end RenderEngine

end A1000

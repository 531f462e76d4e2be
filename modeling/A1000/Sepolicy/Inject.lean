import A1000.Lib.Accum
import A1000.Lib.Stdio

/-!
# Adding rules to a compiled policy

`a1000_sepolicy_inject` reads a binary policy, adds `allow` rules from a file and writes it back.
`add_allow` finds the types, the class and the permissions of a rule in the symbol tables of the
policy, and joins the bits of the permissions to the entry of the allow table, or makes a new one.

The allow table is a function from keys to words of bits, as far as they are there; `avtab_search`
reads it and `avtab_insert` extends it.

## Main definitions

* `Sepolicy.addAllow`, `Sepolicy.addAll` — one rule, and a list of them
* `Sepolicy.ruleLoop` — the loop of `main` over the lines of the file
* `Sepolicy.Rule.Lists`, `Sepolicy.ClassDatum.Has` — the permissions of a rule, and of a class
* `Sepolicy.Resolves` — everything a rule names is there
* `Sepolicy.Avtab.Allows` — the table as a relation

## Main results

* `Sepolicy.addAll_eq_joins` — a list of rules joins the bits of those that resolve
* `Sepolicy.addAll_union` — the new relation is the union of the old one and of what the rules name
-/

namespace A1000

namespace Sepolicy

open Stdio (scanString)

/-! ### Policies -/

/-- A permission: its number is the place of its bit in a word, counted from 1. -/
@[ext]
structure PermDatum where
  value : ℕ
  pos : 0 < value
  le : value ≤ 32
  deriving DecidableEq

/-- A class; `comdatum` are the permissions of the common it inherits from, if it does. -/
structure ClassDatum where
  value : UInt32
  permissions : List (Bytes × PermDatum)
  comdatum : Option (List (Bytes × PermDatum))

/-- The symbol tables of a policy: the numbers of the types, and the classes. -/
structure Policydb where
  types : List (Bytes × UInt32)
  classes : List (Bytes × ClassDatum)

/-- The key of an allow rule. -/
structure Key where
  sourceType : UInt16
  targetType : UInt16
  targetClass : UInt16
  deriving DecidableEq

/-- The allow rules of a policy. -/
abbrev Avtab := Key → Option (BitVec 32)

/-- `avtab_insert`, which refuses a key that is there. -/
def avtabInsert (t : Avtab) (key : Key) (data : BitVec 32) : Option Avtab :=
  if (t key).isSome then none else some (Function.update t key (some data))

/-! ### Rules -/

/-- A rule as `main` has scanned it: source, target, class, and permissions with commas. -/
structure Rule where
  source : Bytes
  target : Bytes
  cls : Bytes
  perms : Bytes
  perms_length : perms.length ≤ 255

/-- What `strtok_r` finds in `s`, a comma being the delimiter. -/
def tokens (s : Bytes) : List Bytes := (s.splitOn 44).filter (· ≠ [])

/-- A permission of a class, or else of its common. -/
def ClassDatum.perm? (cls : ClassDatum) (name : Bytes) : Option PermDatum :=
  (cls.permissions.lookup name).or (cls.comdatum.bind fun c => c.lookup name)

def PermDatum.bit (p : PermDatum) : BitVec 32 := 1#32 <<< (p.value - 1)

/-- `perm_bit`. -/
def permBit (cls : ClassDatum) (name : Bytes) : Option (BitVec 32) :=
  (cls.perm? name).map PermDatum.bit

/-- The loop over the permissions of a rule. -/
def collect (cls : ClassDatum) : List Bytes → BitVec 32 → Option (BitVec 32)
  | [], bits => some bits
  | tok :: toks, bits =>
    match permBit cls tok with
    | none => none
    | some bit => collect cls toks (bits ||| bit)

/-- `add_allow`: what it returns, and the allow table after it. -/
def addAllow (db : Policydb) (r : Rule) (t : Avtab) : Int × Avtab :=
  match db.types.lookup r.source, db.types.lookup r.target, db.classes.lookup r.cls with
  | some src, some tgt, some cls =>
    -- the buffer has room for 511 characters
    match collect cls (tokens (r.perms.take 511)) 0 with
    | none => (-1, t)
    | some bits =>
      let key : Key := ⟨src.toUInt16, tgt.toUInt16, cls.value.toUInt16⟩
      match t key with
      | some data =>
        if data &&& bits = bits then (0, t)
        else (0, Function.update t key (some (data ||| bits)))
      | none =>
        match avtabInsert t key bits with
        | none => (-1, t)
        | some t' => (0, t')
  | _, _, _ => (-1, t)

/-- `add_allow` for one rule after another. -/
def addAll (db : Policydb) (rules : List Rule) (t : Avtab) : Avtab :=
  rules.foldl (fun t r => (addAllow db r t).2) t

/-! ### The loop of `main` -/

/-- A line of the file, up to the first `#`. -/
def scanRule (line : Bytes) : Option Rule :=
  let line := line.takeWhile fun c => c ≠ 0 ∧ c ≠ 35
  (scanString 127 line).bind fun s =>
    (scanString 127 s.2).bind fun t =>
      (scanString 63 t.2).bind fun c =>
        (scanString 255 c.2).map fun p => ⟨s.1, t.1, c.1, p.1, p.1.2⟩

/-- What the loop of `main` changes. -/
structure Loop where
  added : ℕ
  bad : ℕ
  avtab : Avtab

/-- One line. -/
def Loop.line (db : Policydb) (l : Loop) (line : Bytes) : Loop :=
  match scanRule line with
  | none => l
  | some r =>
    let res := addAllow db r l.avtab
    if res.1 ≠ 0 then ⟨l.added, l.bad + 1, res.2⟩ else ⟨l.added + 1, l.bad, res.2⟩

/-- The loop of `main` over the lines of the file. -/
def ruleLoop (db : Policydb) (lines : List Bytes) (t : Avtab) : Loop :=
  lines.foldl (Loop.line db) ⟨0, 0, t⟩

/-! ### What a rule says -/

/-- The rule lists the permission `name`: it stands between commas, and is not empty. -/
def Rule.Lists (r : Rule) (name : Bytes) : Prop := name ≠ [] ∧ Bytes.Field 44 r.perms name

/-- The class has the permission `p` under the name `name`, or its common has, if the class itself
has none of that name. -/
def ClassDatum.Has (cls : ClassDatum) (name : Bytes) (p : PermDatum) : Prop :=
  cls.permissions.lookup name = some p ∨
    cls.permissions.lookup name = none ∧ ∃ c, cls.comdatum = some c ∧ c.lookup name = some p

/-- **The rule resolves**: source, target and class are in the policy, `k` is their key, the class
has every permission that is listed, and these permissions are `ps`. -/
def Resolves (db : Policydb) (r : Rule) (k : Key) (ps : List PermDatum) : Prop :=
  ∃ src tgt cls, db.types.lookup r.source = some src ∧ db.types.lookup r.target = some tgt ∧
    db.classes.lookup r.cls = some cls ∧
    k = ⟨src.toUInt16, tgt.toUInt16, cls.value.toUInt16⟩ ∧
    (∀ name, r.Lists name → ∃ p, cls.Has name p) ∧
    ∀ p, p ∈ ps ↔ ∃ name, r.Lists name ∧ cls.Has name p

/-- The table as a relation. -/
def Avtab.Allows (t : Avtab) (k : Key) (p : PermDatum) : Prop :=
  ∃ bits, t k = some bits ∧ bits.getLsbD (p.value - 1) = true

/-- What `add_allow` joins to the table. -/
def update? (db : Policydb) (r : Rule) : Option (Key × BitVec 32) :=
  (db.types.lookup r.source).bind fun src =>
    (db.types.lookup r.target).bind fun tgt =>
      (db.classes.lookup r.cls).bind fun cls =>
        (collect cls (tokens r.perms) 0).map fun bits =>
          (⟨src.toUInt16, tgt.toUInt16, cls.value.toUInt16⟩, bits)

theorem PermDatum.getLsbD_bit (p q : PermDatum) :
    p.bit.getLsbD (q.value - 1) = true ↔ p = q := by
  have hp := p.pos
  have hq := q.pos
  have hle := q.le
  rw [PermDatum.ext_iff, PermDatum.bit]
  simp only [BitVec.getLsbD_shiftLeft, BitVec.getLsbD_one]
  grind

theorem mem_tokens_iff {r : Rule} {name : Bytes} : name ∈ tokens r.perms ↔ r.Lists name := by
  rw [tokens, List.mem_filter, Bytes.mem_splitOn_iff, decide_eq_true_iff, and_comm]
  rfl

theorem perm?_eq_some_iff {cls : ClassDatum} {name : Bytes} {p : PermDatum} :
    cls.perm? name = some p ↔ cls.Has name p := by
  rw [ClassDatum.perm?, ClassDatum.Has]
  cases cls.permissions.lookup name <;> simp [Option.bind_eq_some_iff]

/-- Permissions that are all there give their bits. -/
theorem collect_of_forall {cls : ClassDatum} {toks : List Bytes}
    (h : ∀ tok ∈ toks, ∃ p, cls.Has tok p) (bits : BitVec 32) :
    ∃ b, collect cls toks bits = some b ∧ ∀ q : PermDatum, b.getLsbD (q.value - 1) = true ↔
      bits.getLsbD (q.value - 1) = true ∨ ∃ tok ∈ toks, cls.Has tok q := by
  induction toks generalizing bits with
  | nil => exact ⟨bits, rfl, by simp⟩
  | cons tok toks ih =>
    rw [List.forall_mem_cons] at h
    obtain ⟨p, hp⟩ := h.1
    rw [← perm?_eq_some_iff] at hp
    obtain ⟨b, hb, hq⟩ := ih h.2 (bits ||| p.bit)
    refine ⟨b, by simpa [collect, permBit, hp] using hb, fun q => ?_⟩
    have hthis : cls.Has tok q ↔ p = q := by
      rw [← perm?_eq_some_iff, hp, Option.some_inj]
    rw [hq, BitVec.getLsbD_or, Bool.or_eq_true, p.getLsbD_bit, List.exists_mem_cons_iff, hthis,
      or_assoc]

/-- Only permissions that are all there give bits. -/
theorem forall_of_collect {cls : ClassDatum} {toks : List Bytes} {bits b : BitVec 32}
    (h : collect cls toks bits = some b) : ∀ tok ∈ toks, ∃ p, cls.Has tok p := by
  induction toks generalizing bits with
  | nil => simp
  | cons tok toks ih =>
    cases hp : cls.perm? tok with
    | none => simp [collect, permBit, hp] at h
    | some p =>
      simp only [collect, permBit, hp, Option.map_some] at h
      exact List.forall_mem_cons.mpr ⟨⟨p, perm?_eq_some_iff.mp hp⟩, ih h⟩

theorem update?_eq_some_iff {db : Policydb} {r : Rule} {k : Key} {b : BitVec 32} :
    update? db r = some (k, b) ↔ ∃ src tgt cls, db.types.lookup r.source = some src ∧
      db.types.lookup r.target = some tgt ∧ db.classes.lookup r.cls = some cls ∧
        k = ⟨src.toUInt16, tgt.toUInt16, cls.value.toUInt16⟩ ∧
          collect cls (tokens r.perms) 0 = some b := by
  simp only [update?, Option.bind_eq_some_iff, Option.map_eq_some_iff, Prod.mk.injEq]
  constructor
  · rintro ⟨src, hsrc, tgt, htgt, cls, hcls, b, hb, rfl, rfl⟩
    exact ⟨src, tgt, cls, hsrc, htgt, hcls, rfl, hb⟩
  · rintro ⟨src, tgt, cls, hsrc, htgt, hcls, rfl, hb⟩
    exact ⟨src, hsrc, tgt, htgt, cls, hcls, b, hb, rfl, rfl⟩

/-- A rule that resolves joins the bits of its permissions. -/
theorem update?_of_resolves {db : Policydb} {r : Rule} {k : Key} {ps : List PermDatum}
    (h : Resolves db r k ps) :
    ∃ b, update? db r = some (k, b) ∧ ∀ q : PermDatum, b.getLsbD (q.value - 1) = true ↔ q ∈ ps := by
  obtain ⟨src, tgt, cls, hsrc, htgt, hcls, hk, hthere, hps⟩ := h
  have htoks : ∀ tok ∈ tokens r.perms, ∃ q, cls.Has tok q :=
    fun tok htok => hthere tok (mem_tokens_iff.mp htok)
  obtain ⟨b, hb, hq⟩ := collect_of_forall htoks 0
  refine ⟨b, update?_eq_some_iff.mpr ⟨src, tgt, cls, hsrc, htgt, hcls, hk, hb⟩, fun q => ?_⟩
  simp only [hq, hps, mem_tokens_iff]
  simp

/-- Only a rule that resolves joins anything. -/
theorem resolves_of_update? {db : Policydb} {r : Rule} {u : Key × BitVec 32}
    (h : update? db r = some u) : ∃ ps, Resolves db r u.1 ps := by
  obtain ⟨src, tgt, cls, hsrc, htgt, hcls, hk, hb⟩ := update?_eq_some_iff.mp h
  refine ⟨(tokens r.perms).filterMap cls.perm?, src, tgt, cls, hsrc, htgt, hcls, hk,
    fun name hname => forall_of_collect hb name (mem_tokens_iff.mpr hname), fun p => ?_⟩
  simp only [List.mem_filterMap, mem_tokens_iff, perm?_eq_some_iff]

/-! ### What `add_allow` does -/

theorem or_eq_of_and_eq {data bits : BitVec 32} (h : data &&& bits = bits) :
    data ||| bits = data := by
  refine BitVec.eq_of_getLsbD_eq fun i _ => ?_
  rw [← h, BitVec.getLsbD_or, BitVec.getLsbD_and]
  cases data.getLsbD i <;> rfl

/-- **One rule**: nothing at all, or the bits of its permissions are joined to its key. -/
theorem addAllow_eq (db : Policydb) (r : Rule) (t : Avtab) :
    addAllow db r t =
      match update? db r with
      | none => (-1, t)
      | some u => (0, Accum.join (· ||| ·) t u) := by
  have hperms : r.perms.take 511 = r.perms :=
    List.take_of_length_le (by have := r.perms_length; omega)
  cases hu : update? db r with
  | none =>
    rw [addAllow, hperms]
    split
    · rename_i src tgt cls hsrc htgt hcls
      simp only [update?, hsrc, htgt, hcls, Option.bind_some, Option.map_eq_none_iff] at hu
      rw [hu]
    · rfl
  | some u =>
    obtain ⟨k, b⟩ := u
    obtain ⟨src, tgt, cls, hsrc, htgt, hcls, rfl, hb⟩ := update?_eq_some_iff.mp hu
    simp only [addAllow, hperms, hsrc, htgt, hcls, hb]
    cases ht : t ⟨src.toUInt16, tgt.toUInt16, cls.value.toUInt16⟩ with
    | none => simp [avtabInsert, Accum.join, ht]
    | some data =>
      simp only
      split_ifs with hsub
      · rw [Accum.join_eq_self ht (or_eq_of_and_eq hsub)]
      · simp [Accum.join, ht]

/-- **A list of rules** joins what each of them joins. -/
theorem addAll_eq_joins (db : Policydb) (rules : List Rule) (t : Avtab) :
    addAll db rules t = Accum.joins (· ||| ·) t (rules.filterMap (update? db)) := by
  induction rules generalizing t with
  | nil => rfl
  | cons r rules ih =>
    rw [addAll, List.foldl_cons, addAllow_eq, List.filterMap_cons]
    cases update? db r <;> exact ih _

/-- **Adding rules computes the union.** The new relation is the old one and the permissions of the
rules that resolve; keys of no such rule keep their entries; a rule that does not resolve, and no
other, returns -1 and changes nothing; neither order nor repetition matters. -/
theorem addAll_union (db : Policydb) (rules : List Rule) (t : Avtab) :
    (∀ k p, (addAll db rules t).Allows k p ↔
      t.Allows k p ∨ ∃ r ∈ rules, ∃ ps, Resolves db r k ps ∧ p ∈ ps) ∧
    (∀ k, (∀ r ∈ rules, ∀ ps, ¬ Resolves db r k ps) → addAll db rules t k = t k) ∧
    (∀ r t', (addAllow db r t').1 = -1 ↔ ∀ k ps, ¬ Resolves db r k ps) ∧
    (∀ r t', (addAllow db r t').1 = -1 → (addAllow db r t').2 = t') ∧
    (∀ rules', rules.Perm rules' → addAll db rules' t = addAll db rules t) ∧
    addAll db rules (addAll db rules t) = addAll db rules t := by
  refine ⟨fun k p => ?_, fun k hk => ?_, fun r t' => ?_, fun r t' => ?_, fun rules' h => ?_, ?_⟩
  · simp only [Avtab.Allows, addAll_eq_joins]
    rw [Accum.holds_joins_iff (P := fun b : BitVec 32 => b.getLsbD (p.value - 1) = true) (by simp)]
    refine or_congr_right ?_
    simp only [List.mem_filterMap]
    constructor
    · rintro ⟨⟨k, c⟩, ⟨r, hr, hu⟩, rfl, hp⟩
      obtain ⟨ps, hps⟩ := resolves_of_update? hu
      obtain ⟨b, hb, hq⟩ := update?_of_resolves hps
      obtain rfl : c = b := by simpa [hu] using hb
      exact ⟨r, hr, ps, hps, (hq p).mp hp⟩
    · rintro ⟨r, hr, ps, hps, hp⟩
      obtain ⟨b, hb, hq⟩ := update?_of_resolves hps
      exact ⟨(k, b), ⟨r, hr, hb⟩, rfl, (hq p).mpr hp⟩
  · rw [addAll_eq_joins]
    refine Accum.joins_of_forall_ne fun u hu heq => ?_
    obtain ⟨r, hr, hu⟩ := List.mem_filterMap.mp hu
    obtain ⟨ps, hps⟩ := resolves_of_update? hu
    exact hk r hr ps (heq ▸ hps)
  · rw [addAllow_eq]
    cases hu : update? db r with
    | none =>
      refine iff_of_true rfl fun k ps hps => ?_
      obtain ⟨b, hb, -⟩ := update?_of_resolves hps
      rw [hu] at hb
      cases hb
    | some u =>
      obtain ⟨ps, hps⟩ := resolves_of_update? hu
      exact iff_of_false (by simp) fun h => h _ _ hps
  · rw [addAllow_eq]
    cases update? db r with
    | none => exact fun _ => rfl
    | some u => simp
  · rw [addAll_eq_joins, addAll_eq_joins, Accum.joins_perm (h.filterMap _)]
  · rw [addAll_eq_joins, addAll_eq_joins, Accum.joins_joins]

/-- Two permissions. -/
def firstPerm : PermDatum := ⟨1, Nat.one_pos, Nat.le_of_ble_eq_true rfl⟩

def secondPerm : PermDatum := ⟨2, Nat.two_pos, Nat.le_of_ble_eq_true rfl⟩

/-- Types `a` and `b`, and a class `c` with the permission `r`, whose common has `w`. -/
def smallPolicy : Policydb where
  types := [([97], 1), ([98], 2)]
  classes := [([99], ⟨3, [([114], firstPerm)], some [([119], secondPerm)]⟩)]

/-- `a b c r,,w`. -/
def smallRule : Rule := ⟨[97], [98], [99], [114, 44, 44, 119], by decide⟩

/-- The rule adds the permission of the class and that of the common to an empty table. -/
theorem addAll_union_small :
    (addAll smallPolicy [smallRule] fun _ => none).Allows ⟨1, 2, 3⟩ firstPerm ∧
      (addAll smallPolicy [smallRule] fun _ => none).Allows ⟨1, 2, 3⟩ secondPerm := by
  have hlists : ∀ name, smallRule.Lists name ↔ name = [114] ∨ name = [119] := by
    intro name
    rw [← mem_tokens_iff, show tokens smallRule.perms = [[114], [119]] by decide]
    simp
  have hres : Resolves smallPolicy smallRule ⟨1, 2, 3⟩ [firstPerm, secondPerm] := by
    refine ⟨1, 2, _, rfl, rfl, rfl, rfl, fun name hname => ?_, fun p => ?_⟩
    · rcases (hlists name).mp hname with rfl | rfl
      · exact ⟨_, .inl rfl⟩
      · exact ⟨_, .inr ⟨rfl, _, rfl, rfl⟩⟩
    · simp only [hlists, ← perm?_eq_some_iff, exists_eq_or_imp, exists_eq_left, List.mem_cons,
        List.not_mem_nil, or_false]
      exact or_congr ⟨fun h => h ▸ rfl, fun h => (Option.some.inj h).symm⟩
        ⟨fun h => h ▸ rfl, fun h => (Option.some.inj h).symm⟩
  have hunion := (addAll_union smallPolicy [smallRule] fun _ => none).1
  exact ⟨(hunion _ _).mpr (.inr ⟨_, List.mem_cons_self, _, hres, by simp⟩),
    (hunion _ _).mpr (.inr ⟨_, List.mem_cons_self, _, hres, by simp⟩)⟩

end Sepolicy

end A1000

import A1000.Hci.Answers

/-!
# The feature pages of the controller

`start_up` of `controller.cc` reads the features of the controller page by page. It asks for page 0
first, and then, as long as the number of the page is neither beyond the last one nor beyond the
array, for the next page. Each answer carries the number of its page and the number of the last one,
and the loop takes both from the answer: the page it asks for next is the one after the page that
was answered, whichever that was.

For the first answer there is an assertion that it is for page 0. In the loop there is none, so a
controller that answers another page can make the loop skip a page, or go on for ever.

## Main definitions

* `Hci.FeaturePages` — the variables of the loop
* `Hci.FeaturePages.turn`, `Hci.FeaturePages.after` — one turn, and a number of turns
* `Hci.PagesRead` — the loop ends after two requests at most, with every page filled
* `Hci.PagesAgree` — the answers with which it does

## Main results

* `Hci.FeaturePages.turn_eq` — one turn
* `Hci.Filling.after` — every page that was answered holds what an answer for it carried
* `Hci.pagesRead_iff` — when the pages are read
* `Hci.asks_forever` — a controller that always answers page 0 is asked for ever
-/

namespace A1000

namespace Hci

open Walk Fallible

/-! ### The loop -/

/-- The variables of the loop. -/
structure FeaturePages where
  pageNumber : UInt8
  lastFeaturesClassicPageIndex : UInt8
  featuresClassic : List (List UInt8)
  deriving DecidableEq, Repr

/-- The condition of the loop. -/
def FeaturePages.more (s : FeaturePages) : Bool :=
  s.pageNumber ≤ s.lastFeaturesClassicPageIndex ∧
    s.pageNumber.toNat < maxFeaturesClassicPageCount

/-- One turn of the loop. -/
def FeaturePages.turn (s : FeaturePages) (response : BtHdr) : Except Stop FeaturePages := do
  let r ← parseReadLocalExtendedFeaturesResponse s.featuresClassic maxFeaturesClassicPageCount
    response
  return ⟨r.stored.pageNumber + 1, r.stored.maxPageNumber, r.stored.featurePages⟩

/-- `HCI_LE_SPT_SUPPORTED`. -/
def hciLeSptSupported (features : List UInt8) : Bool := byteAt features 4 &&& 0x40 ≠ 0

/-- `start_up` from the request for page 0 up to the loop. The commands that tell the controller
about page 0 come in between and leave these variables alone. -/
def readFirstPage (featuresClassic : List (List UInt8)) (response : BtHdr) :
    Except Stop FeaturePages := do
  let r ← parseReadLocalExtendedFeaturesResponse featuresClassic maxFeaturesClassicPageCount
    response
  assert (r.stored.pageNumber = 0)
  let last := r.stored.maxPageNumber
  -- if we modified the BT_HOST_SUPPORT, we will need ext. feat. page 1
  let last := if hciLeSptSupported (r.stored.featurePages.getD 0 []) ∧ last < 1 then 1 else last
  return ⟨r.stored.pageNumber + 1, last, r.stored.featurePages⟩

/-- The loop after at most `n` turns, the controller giving these answers. -/
def FeaturePages.after (s : FeaturePages) (answers : ℕ → BtHdr) : ℕ → Except Stop FeaturePages
  | 0 => .ok s
  | n + 1 => do
    let t ← s.after answers n
    if t.more then t.turn (answers n) else return t

/-- The answers it has got by then. -/
def FeaturePages.got (s : FeaturePages) (answers : ℕ → BtHdr) : ℕ → List BtHdr
  | 0 => []
  | n + 1 =>
    match s.after answers n with
    | .ok t => if t.more then s.got answers n ++ [answers n] else s.got answers n
    | .error _ => s.got answers n

/-! ### Answers -/

/-- The number of the page an answer is for. -/
def BtHdr.pageNumber (packet : BtHdr) : ℕ := (byteAt packet.returned 0).toNat

/-- The number of the last page, as it says. -/
def BtHdr.maxPageNumber (packet : BtHdr) : ℕ := (byteAt packet.returned 1).toNat

/-- The features it carries. -/
def BtHdr.features (packet : BtHdr) : List UInt8 := arrayAt packet.returned 2 8

/-- A successful Read Local Extended Features response, for one of the pages there is room for. -/
structure IsPageAnswer (packet : BtHdr) : Prop extends IsAnswer packet where
  succeeds : packet.Succeeds
  passes : packet.Passes hciReadLocalExtFeatures (2 + sizeofBtDeviceFeatures)
  page : packet.pageNumber < maxFeaturesClassicPageCount

/-- A page is filled from one of these answers. -/
def Filled (got : List BtHdr) (featuresClassic : List (List UInt8)) (i : ℕ) : Prop :=
  ∃ response ∈ got, response.pageNumber = i ∧ featuresClassic[i]? = some response.features

/-- **The pages are read**: after the first answer, and two more at most, the loop has ended, and
every page up to the last one is filled. -/
def PagesRead (featuresClassic : List (List UInt8)) (first : BtHdr) (answers : ℕ → BtHdr) : Prop :=
  ∀ s, readFirstPage featuresClassic first = .ok s →
    ∃ t, s.after answers 2 = .ok t ∧ t.more = false ∧
      ∀ i ≤ min t.lastFeaturesClassicPageIndex.toNat (maxFeaturesClassicPageCount - 1),
        Filled (first :: s.got answers 2) t.featuresClassic i

/-- The number of the last page before the loop. -/
def BtHdr.lastPage (first : BtHdr) : ℕ :=
  if hciLeSptSupported first.features ∧ first.maxPageNumber < 1 then 1 else first.maxPageNumber

/-- **The answers agree with the requests** as far as it matters: the first one is for another page
than 0, so that `start_up` aborts; or there is nothing more to ask for; or the answer to the first
request of the loop is the only one that is needed; or it leads to a second request, and the answer
to that one ends the loop with no page skipped. -/
def PagesAgree (first : BtHdr) (answers : ℕ → BtHdr) : Prop :=
  first.pageNumber ≠ 0 ∨
  first.lastPage = 0 ∨
  (answers 0).maxPageNumber = 0 ∨
  (answers 0).maxPageNumber = 1 ∧ (answers 0).pageNumber = 1 ∨
  ((answers 0).pageNumber < (answers 0).maxPageNumber ∧ (answers 0).pageNumber < 2) ∧
    ((answers 1).maxPageNumber = 0 ∨
      (answers 1).maxPageNumber = 1 ∧ (answers 1).pageNumber = 1 ∨
      (answers 1).maxPageNumber ≥ 1 ∧ (answers 1).pageNumber = 2 ∧ (answers 0).pageNumber = 1)

/-! ### One turn -/

/-- What the parser does with such an answer. -/
theorem parse_pageAnswer {packet : BtHdr} (h : IsPageAnswer packet)
    {featuresClassic : List (List UInt8)}
    (size : featuresClassic.length = maxFeaturesClassicPageCount) :
    parseReadLocalExtendedFeaturesResponse featuresClassic maxFeaturesClassicPageCount packet =
      .ok ⟨⟨byteAt packet.returned 0, byteAt packet.returned 1,
        featuresClassic.set packet.pageNumber packet.features⟩, [packet.addr]⟩ := by
  rw [parseReadLocalExtendedFeaturesResponse, parseChecked]
  rcases header_cases h.toIsAnswer hciReadLocalExtFeatures (2 + sizeofBtDeviceFeatures) with
    ⟨habort, -⟩ | ⟨-, -, hlen, heq⟩ | ⟨-, hfail, -⟩
  · exact absurd h.passes habort.2
  · have hpage : (byteAt packet.returned 0).toNat < maxFeaturesClassicPageCount := h.page
    rw [heq, ok_bind, assert_bind Option.isSome_some, readExtendedFeatures_eq size hlen,
      if_pos hpage, ok_bind]
    rfl
  · exact absurd h.succeeds hfail

/-- The variables after a turn. -/
def FeaturePages.next (s : FeaturePages) (packet : BtHdr) : FeaturePages :=
  ⟨byteAt packet.returned 0 + 1, byteAt packet.returned 1,
    s.featuresClassic.set packet.pageNumber packet.features⟩

/-- **One turn**: the page after the one that was answered comes next. -/
theorem FeaturePages.turn_eq {s : FeaturePages} {packet : BtHdr} (h : IsPageAnswer packet)
    (size : s.featuresClassic.length = maxFeaturesClassicPageCount) :
    s.turn packet = .ok (s.next packet) := by
  rw [FeaturePages.turn, parse_pageAnswer h size, ok_bind]
  rfl

theorem lastPage_lt (first : BtHdr) : first.lastPage < 256 := by
  have h : first.maxPageNumber < 256 := UInt8.toNat_lt _
  rw [BtHdr.lastPage]
  split_ifs <;> omega

/-- The first page, or the assertion. -/
theorem readFirstPage_eq {first : BtHdr} (h : IsPageAnswer first)
    {featuresClassic : List (List UInt8)}
    (size : featuresClassic.length = maxFeaturesClassicPageCount) :
    readFirstPage featuresClassic first =
      if first.pageNumber = 0 then
        .ok ⟨1, first.lastPage.toUInt8, featuresClassic.set 0 first.features⟩
      else .error .assertion := by
  rw [readFirstPage, parse_pageAnswer h size, ok_bind]
  by_cases hzero : byteAt first.returned 0 = 0
  · have hpage : first.pageNumber = 0 := by rw [BtHdr.pageNumber, hzero]; rfl
    obtain ⟨page, pages, rfl⟩ : ∃ page pages, featuresClassic = page :: pages :=
      List.exists_cons_of_length_pos (by rw [size]; decide)
    rw [assert_bind hzero, if_pos hpage, hpage]
    show Except.ok (FeaturePages.mk (byteAt first.returned 0 + 1)
      (if hciLeSptSupported first.features ∧ byteAt first.returned 1 < 1 then 1
        else byteAt first.returned 1) ((page :: pages).set 0 first.features)) = _
    have hlast : (if hciLeSptSupported first.features ∧ byteAt first.returned 1 < 1 then 1
        else byteAt first.returned 1) = first.lastPage.toUInt8 := by
      have hmax : byteAt first.returned 1 < 1 ↔ first.maxPageNumber < 1 := UInt8.lt_iff_toNat_lt
      simp only [BtHdr.lastPage, hmax]
      split_ifs
      · rfl
      · exact (UInt8.ofNat_toNat).symm
    rw [hlast, hzero]
    rfl
  · have hpage : first.pageNumber ≠ 0 := fun hpage => hzero (UInt8.toNat_inj.mp hpage)
    rw [assert_bind_of_not hzero, if_neg hpage]

theorem FeaturePages.more_iff (s : FeaturePages) :
    s.more = true ↔ s.pageNumber.toNat ≤ s.lastFeaturesClassicPageIndex.toNat ∧
      s.pageNumber.toNat < 3 := by
  rw [FeaturePages.more, decide_eq_true_iff, UInt8.le_iff_toNat_le]
  rfl

/-- The number of the next page after an answer. -/
theorem toNat_nextPage {packet : BtHdr} (h : IsPageAnswer packet) :
    (byteAt packet.returned 0 + 1).toNat = packet.pageNumber + 1 := by
  have hpage : (byteAt packet.returned 0).toNat < 3 := h.page
  rw [UInt8.toNat_add, BtHdr.pageNumber]
  exact Nat.mod_eq_of_lt (show (byteAt packet.returned 0).toNat + 1 < 256 by omega)

/-! ### The pages that are filled -/

/-- Every page that was answered holds what one of the answers for it carried. -/
structure Filling (got : List BtHdr) (featuresClassic : List (List UInt8)) : Prop where
  size : featuresClassic.length = maxFeaturesClassicPageCount
  filled : ∀ response ∈ got, Filled got featuresClassic response.pageNumber

theorem Filling.filled_iff {got : List BtHdr} {featuresClassic : List (List UInt8)}
    (h : Filling got featuresClassic) (i : ℕ) :
    Filled got featuresClassic i ↔ ∃ response ∈ got, response.pageNumber = i := by
  constructor
  · rintro ⟨response, hmem, hpage, -⟩
    exact ⟨response, hmem, hpage⟩
  · rintro ⟨response, hmem, rfl⟩
    exact h.filled response hmem

/-- The page of one more answer is filled from it, and the others are left alone. -/
theorem Filling.set {got : List BtHdr} {featuresClassic : List (List UInt8)}
    (h : Filling got featuresClassic) {packet : BtHdr}
    (hpage : packet.pageNumber < maxFeaturesClassicPageCount) :
    Filling (got ++ [packet]) (featuresClassic.set packet.pageNumber packet.features) := by
  refine ⟨by rw [List.length_set, h.size], fun response hmem => ?_⟩
  by_cases heq : packet.pageNumber = response.pageNumber
  · refine ⟨packet, by simp, heq, ?_⟩
    rw [← heq, List.getElem?_set_self (by rw [h.size]; exact hpage)]
  · have hold : response ∈ got := by
      rcases List.mem_append.mp hmem with hmem | hmem
      · exact hmem
      · rw [List.mem_singleton.mp hmem] at heq
        exact absurd rfl heq
    obtain ⟨source, hsource, hsame, hfeatures⟩ := h.filled response hold
    refine ⟨source, List.mem_append_left _ hsource, hsame, ?_⟩
    rw [List.getElem?_set_ne heq, hfeatures]

/-- The variables of the loop are good for one more turn. -/
abbrev FeaturePages.Ready (s : FeaturePages) : Prop :=
  s.featuresClassic.length = maxFeaturesClassicPageCount

section Turns

variable {s t : FeaturePages} {answers : ℕ → BtHdr} {n : ℕ}

/-- A turn that is not taken. -/
theorem after_succ_of_done (h : s.after answers n = .ok t) (hdone : ¬ t.more = true) :
    s.after answers (n + 1) = .ok t ∧ s.got answers (n + 1) = s.got answers n := by
  rw [FeaturePages.after, FeaturePages.got, h, ok_bind, if_neg hdone]
  exact ⟨rfl, by simp only [hdone]; rfl⟩

/-- A turn that is. -/
theorem after_succ_of_more (h : s.after answers n = .ok t) (hmore : t.more = true) (ready : t.Ready)
    (hanswer : IsPageAnswer (answers n)) :
    s.after answers (n + 1) = .ok (t.next (answers n)) ∧
      s.got answers (n + 1) = s.got answers n ++ [answers n] := by
  rw [FeaturePages.after, FeaturePages.got, h, ok_bind, if_pos hmore,
    FeaturePages.turn_eq hanswer ready]
  exact ⟨rfl, by simp only [hmore, if_true]⟩

/-- **Every number of turns**: the loop does not stop, and the pages answered are filled. -/
theorem Filling.after {first : List BtHdr} (h : Filling first s.featuresClassic)
    (hanswers : ∀ k, IsPageAnswer (answers k)) (n : ℕ) :
    ∃ t, s.after answers n = .ok t ∧ Filling (first ++ s.got answers n) t.featuresClassic := by
  induction n with
  | zero => exact ⟨s, rfl, by simpa [FeaturePages.got] using h⟩
  | succ n ih =>
    obtain ⟨t, heq, hfill⟩ := ih
    by_cases hmore : t.more = true
    · obtain ⟨hafter, hgot⟩ := after_succ_of_more heq hmore hfill.size (hanswers n)
      refine ⟨_, hafter, ?_⟩
      rw [hgot, ← List.append_assoc]
      exact hfill.set (hanswers n).page
    · obtain ⟨hafter, hgot⟩ := after_succ_of_done heq hmore
      exact ⟨t, hafter, by rw [hgot]; exact hfill⟩

/-- **Two turns**: none of them is taken, or one is, or both. -/
theorem two_turns (ready : s.Ready) (hanswers : ∀ k, IsPageAnswer (answers k)) :
    s.more ≠ true ∧ s.after answers 2 = .ok s ∧ s.got answers 2 = [] ∨
    (s.more = true ∧ (s.next (answers 0)).more ≠ true) ∧
      s.after answers 2 = .ok (s.next (answers 0)) ∧ s.got answers 2 = [answers 0] ∨
    (s.more = true ∧ (s.next (answers 0)).more = true) ∧
      s.after answers 2 = .ok ((s.next (answers 0)).next (answers 1)) ∧
      s.got answers 2 = [answers 0, answers 1] := by
  have h₀ : s.after answers 0 = .ok s := rfl
  have hgot₀ : s.got answers 0 = [] := rfl
  by_cases hm₀ : s.more = true
  · obtain ⟨h₁, hgot₁⟩ := after_succ_of_more h₀ hm₀ ready (hanswers 0)
    rw [hgot₀, List.nil_append] at hgot₁
    by_cases hm₁ : (s.next (answers 0)).more = true
    · have ready₁ : (s.next (answers 0)).Ready := List.length_set.trans ready
      obtain ⟨h₂, hgot₂⟩ := after_succ_of_more h₁ hm₁ ready₁ (hanswers 1)
      exact .inr (.inr ⟨⟨hm₀, hm₁⟩, h₂, by rw [hgot₂, hgot₁]; rfl⟩)
    · obtain ⟨h₂, hgot₂⟩ := after_succ_of_done h₁ hm₁
      exact .inr (.inl ⟨⟨hm₀, hm₁⟩, h₂, hgot₂.trans hgot₁⟩)
  · obtain ⟨h₁, hgot₁⟩ := after_succ_of_done h₀ hm₀
    obtain ⟨h₂, hgot₂⟩ := after_succ_of_done h₁ hm₀
    exact .inl ⟨hm₀, h₂, hgot₂.trans (hgot₁.trans hgot₀)⟩

end Turns

/-! ### When the pages are read -/

/-- Pages up to `min m 2` among some: it is enough to look at the pages 1 and 2. -/
theorem forall_page_iff {m : ℕ} {P : ℕ → Prop} (h0 : P 0) :
    (∀ i ≤ min m (maxFeaturesClassicPageCount - 1), P i) ↔ (1 ≤ m → P 1) ∧ (2 ≤ m → P 2) := by
  have hcount : maxFeaturesClassicPageCount = 3 := rfl
  constructor
  · intro h
    exact ⟨fun hm => h 1 (by omega), fun hm => h 2 (by omega)⟩
  · rintro ⟨h1, h2⟩ i hi
    obtain rfl | rfl | rfl : i = 0 ∨ i = 1 ∨ i = 2 := by omega
    · exact h0
    · exact h1 (by omega)
    · exact h2 (by omega)

/-- After two turns: the loop has ended with every page filled exactly when the numbers it has been
given say so. -/
theorem ended_iff {s t : FeaturePages} {answers : ℕ → BtHdr} {got : List BtHdr}
    (hfill : Filling got t.featuresClassic) (hzero : ∃ r ∈ got, r.pageNumber = 0)
    (hafter : s.after answers 2 = .ok t) :
    (∃ t, s.after answers 2 = .ok t ∧ t.more = false ∧
      ∀ i ≤ min t.lastFeaturesClassicPageIndex.toNat (maxFeaturesClassicPageCount - 1),
        Filled got t.featuresClassic i) ↔
      ¬ (t.pageNumber.toNat ≤ t.lastFeaturesClassicPageIndex.toNat ∧ t.pageNumber.toNat < 3) ∧
        (1 ≤ t.lastFeaturesClassicPageIndex.toNat → ∃ r ∈ got, r.pageNumber = 1) ∧
        (2 ≤ t.lastFeaturesClassicPageIndex.toNat → ∃ r ∈ got, r.pageNumber = 2) := by
  rw [hafter]
  simp only [Except.ok.injEq, exists_eq_left']
  rw [forall_page_iff ((hfill.filled_iff 0).mpr hzero), hfill.filled_iff, hfill.filled_iff,
    ← Bool.not_eq_true, t.more_iff]

theorem FeaturePages.next_pageNumber (s : FeaturePages) {packet : BtHdr} (h : IsPageAnswer packet) :
    (s.next packet).pageNumber.toNat = packet.pageNumber + 1 := toNat_nextPage h

theorem FeaturePages.next_last (s : FeaturePages) (packet : BtHdr) :
    (s.next packet).lastFeaturesClassicPageIndex.toNat = packet.maxPageNumber := rfl

theorem FeaturePages.next_more_iff (s : FeaturePages) {packet : BtHdr} (h : IsPageAnswer packet) :
    (s.next packet).more = true ↔
      packet.pageNumber + 1 ≤ packet.maxPageNumber ∧ packet.pageNumber + 1 < 3 := by
  rw [FeaturePages.more_iff, s.next_pageNumber h, s.next_last]

/-- **When the pages are read.** Whatever successful answers the controller gives, the loop ends
after two requests at most with every page filled exactly when the answers agree with the
requests. -/
theorem pagesRead_iff {featuresClassic : List (List UInt8)} {first : BtHdr} {answers : ℕ → BtHdr}
    (size : featuresClassic.length = maxFeaturesClassicPageCount) (hfirst : IsPageAnswer first)
    (hanswers : ∀ k, IsPageAnswer (answers k)) :
    PagesRead featuresClassic first answers ↔ PagesAgree first answers := by
  rw [PagesRead, PagesAgree, readFirstPage_eq hfirst size]
  by_cases hpage : first.pageNumber = 0
  · rw [if_pos hpage]
    simp only [Except.ok.injEq, forall_eq']
    set s : FeaturePages := ⟨1, first.lastPage.toUInt8, featuresClassic.set 0 first.features⟩
    have hlast : s.lastFeaturesClassicPageIndex.toNat = first.lastPage :=
      Nat.mod_eq_of_lt (lastPage_lt first)
    have hstart : Filling [first] s.featuresClassic := by
      have hnone : Filling [] featuresClassic := ⟨size, fun r hr => by cases hr⟩
      have hset := hnone.set hfirst.page
      rwa [hpage] at hset
    have hmore₀ : s.more = true ↔ 1 ≤ first.lastPage := by
      rw [FeaturePages.more_iff, hlast]
      exact and_iff_left (show (1 : UInt8).toNat < 3 by decide)
    obtain ⟨t, ht, hfill⟩ := hstart.after hanswers 2
    rw [List.singleton_append] at hfill
    have hzero : ∃ r ∈ first :: s.got answers 2, r.pageNumber = 0 := ⟨first, by simp, hpage⟩
    rw [ended_iff hfill hzero ht]
    have hp₁ : (answers 0).pageNumber < 3 := (hanswers 0).page
    have hp₂ : (answers 1).pageNumber < 3 := (hanswers 1).page
    have hmore₁ := s.next_more_iff (hanswers 0)
    rcases two_turns hstart.size hanswers with
      ⟨hm₀, h₂, -⟩ | ⟨⟨hm₀, hm₁⟩, h₂, hgot⟩ | ⟨⟨hm₀, hm₁⟩, h₂, hgot⟩
    · -- no request
      obtain rfl : t = s := Except.ok.inj (ht.symm.trans h₂)
      have hnone : first.lastPage = 0 := by
        rw [ne_eq, hmore₀] at hm₀
        omega
      rw [← FeaturePages.more_iff, hlast, hnone]
      exact iff_of_true ⟨hm₀, fun h => absurd h (by decide), fun h => absurd h (by decide)⟩
        (.inr (.inl rfl))
    · -- one request
      obtain rfl : t = s.next (answers 0) := Except.ok.inj (ht.symm.trans h₂)
      rw [hgot, s.next_pageNumber (hanswers 0), s.next_last]
      simp only [List.mem_cons, List.not_mem_nil, or_false, exists_eq_or_imp, exists_eq_left]
      rw [ne_eq, hmore₁] at hm₁
      rw [hmore₀] at hm₀
      omega
    · -- two requests
      obtain rfl : t = (s.next (answers 0)).next (answers 1) :=
        Except.ok.inj (ht.symm.trans h₂)
      rw [hgot, FeaturePages.next_pageNumber _ (hanswers 1), FeaturePages.next_last]
      simp only [List.mem_cons, List.not_mem_nil, or_false, exists_eq_or_imp, exists_eq_left]
      rw [hmore₁] at hm₁
      rw [hmore₀] at hm₀
      omega
  · rw [if_neg hpage]
    exact iff_of_true (fun s hs => by cases hs) (.inl hpage)

/-! ### Answers of a kind -/

theorem isPageAnswer_pageAnswer {page : UInt8} (hpage : page.toNat < 3) (maxPage : UInt8) :
    IsPageAnswer (pageAnswer page maxPage) where
  offset := rfl
  code := .inl rfl
  length := rfl
  header := show 3 ≤ 14 by decide
  succeeds := ⟨rfl, rfl⟩
  passes := ⟨show 14 ≤ 14 from Nat.le_refl 14, .inr rfl⟩
  page := hpage

/-- A controller that answers the page it is asked for, of three. -/
theorem pagesRead_three :
    PagesRead (List.replicate 3 []) (pageAnswer 0 2)
        (fun k => if k = 0 then pageAnswer 1 2 else pageAnswer 2 2) ↔
      PagesAgree (pageAnswer 0 2)
        (fun k => if k = 0 then pageAnswer 1 2 else pageAnswer 2 2) := by
  refine pagesRead_iff rfl (isPageAnswer_pageAnswer (by decide) 2) fun k => ?_
  split_ifs
  · exact isPageAnswer_pageAnswer (by decide) 2
  · exact isPageAnswer_pageAnswer (by decide) 2

/-- **A controller that always answers page 0**, and says that there are more, is asked for ever. -/
theorem asks_forever {s : FeaturePages} (ready : s.Ready) (hmore : s.more = true) (n : ℕ) :
    ∃ t, s.after (fun _ => pageAnswer 0 2) n = .ok t ∧ t.Ready ∧ t.more = true := by
  induction n with
  | zero => exact ⟨s, rfl, ready, hmore⟩
  | succ n ih =>
    obtain ⟨t, heq, hready, hmore⟩ := ih
    have hanswer := @isPageAnswer_pageAnswer 0 (by decide) 2
    refine ⟨_, (after_succ_of_more heq hmore hready hanswer).1,
      (List.length_set).trans hready, ?_⟩
    rw [FeaturePages.next_more_iff t hanswer]
    decide

/-- A controller of that kind. -/
theorem pagesRead_not_always :
    ¬ ∀ (featuresClassic : List (List UInt8)) (first : BtHdr) (answers : ℕ → BtHdr),
      featuresClassic.length = maxFeaturesClassicPageCount → IsPageAnswer first →
      (∀ k, IsPageAnswer (answers k)) → PagesRead featuresClassic first answers := by
  intro hall
  have hanswer := @isPageAnswer_pageAnswer 0 (by decide) 2
  obtain ⟨t, ht, hended, -⟩ := hall (List.replicate 3 []) (pageAnswer 0 2) (fun _ => pageAnswer 0 2)
    rfl hanswer (fun _ => hanswer) _ (readFirstPage_eq hanswer rfl)
  obtain ⟨u, hu, -, hmore⟩ := asks_forever
    (s := ⟨1, 2, (List.replicate 3 []).set 0 (pageAnswer 0 2).features⟩) rfl (by decide) 2
  obtain rfl : t = u := Except.ok.inj (ht.symm.trans hu)
  rw [hended] at hmore
  cases hmore

end Hci

end A1000

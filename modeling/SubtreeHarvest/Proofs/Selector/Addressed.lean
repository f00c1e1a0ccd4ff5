/-
What a path expression addresses, said without the matcher: the steps of its chain match along
the path down to an element, in order, the last at the element itself, with gaps only in front of
recursive steps. Main facts: whatever is captured is addressed; and in a chain without a plain step
behind a recursive one, whatever is addressed is captured or lies inside something captured.

The matcher never goes back: it takes the first element that a step admits. `Embeds` is the
choice it does not have, between taking an element and passing it over. The second fact rests on
an exchange: where all later steps are recursive, a match that comes too late for the matcher can
be had earlier.
-/
import SubtreeHarvest.Proofs.Extract.Captured

namespace SubtreeHarvest

namespace Chain

/-- The steps of a chain match along a path, step `j` at `place j`. -/
structure Addressing (chain : Chain) (path : List Tag) (place : Nat → Nat) : Prop where
  admits : ∀ j step, chain.steps[j]? = some step →
    ∃ tag, path[place j]? = some tag ∧ step.admits tag = true
  lt : ∀ j < chain.later.length, place j < place (j + 1)
  last : place chain.later.length + 1 = path.length
  first : chain.first.recursive = false → place 0 = 0
  next : ∀ j step, chain.later[j]? = some step → step.recursive = false →
    place (j + 1) = place j + 1

/-- The chain addresses what lies at the end of a path. -/
def Addresses (chain : Chain) (path : List Tag) : Prop :=
  ∃ place, chain.Addressing path place

/-- No plain step comes behind a recursive one. -/
def GapsLast (chain : Chain) : Prop :=
  chain.steps.Pairwise fun step later => step.recursive = true → later.recursive = true

instance (chain : Chain) : Decidable chain.GapsLast :=
  inferInstanceAs (Decidable (List.Pairwise _ _))

/-! ## Step by step -/

/-- A step and the later ones match along a path: the step at the first tag of it, or, if it is
recursive, behind that tag. -/
inductive Embeds : Step → List Step → List Tag → Prop
  | last {step : Step} {tag : Tag} : step.admits tag = true → Embeds step [] [tag]
  | next {step next : Step} {later : List Step} {tag : Tag} {tags : List Tag} :
      step.admits tag = true → Embeds next later tags → Embeds step (next :: later) (tag :: tags)
  | gap {step : Step} {later : List Step} {tag : Tag} {tags : List Tag} :
      step.recursive = true → Embeds step later tags → Embeds step later (tag :: tags)

namespace Addressing

variable {step : Step} {later : List Step} {tag : Tag} {tags : List Tag} {place : Nat → Nat}

theorem place_zero_le (h : Addressing ⟨step, later⟩ tags place) :
    ∀ j ≤ later.length, place 0 ≤ place j
  | 0, _ => Nat.le_refl _
  | j + 1, hj => by
    have h₁ := place_zero_le h j (by omega)
    have h₂ := h.lt j (by simp only; omega)
    omega

theorem of_last (h : step.admits tag = true) : Addressing ⟨step, []⟩ [tag] fun _ => 0 where
  admits j s hs := by
    cases j with
    | zero => cases hs; exact ⟨tag, rfl, h⟩
    | succ j => simp [steps] at hs
  lt j hj := by simp at hj
  last := rfl
  first _ := rfl
  next j s hs := by simp at hs

theorem cons {next : Step} (ha : step.admits tag = true)
    (h : Addressing ⟨next, later⟩ tags place) :
    Addressing ⟨step, next :: later⟩ (tag :: tags)
      (fun | 0 => 0 | j + 1 => place j + 1) where
  admits j s hs := by
    cases j with
    | zero => cases hs; exact ⟨tag, rfl, ha⟩
    | succ j => exact h.admits j s hs
  lt j hj := by
    cases j with
    | zero => exact Nat.succ_pos _
    | succ j => exact Nat.succ_lt_succ (h.lt j (by simpa using hj))
  last := congrArg (· + 1) h.last
  first _ := rfl
  next j s hs hr := by
    cases j with
    | zero => cases hs; exact congrArg (· + 1) (h.first hr)
    | succ j => exact congrArg (· + 1) (h.next j s hs hr)

theorem gap (hr : step.recursive = true) (h : Addressing ⟨step, later⟩ tags place) :
    Addressing ⟨step, later⟩ (tag :: tags) fun j => place j + 1 where
  admits := h.admits
  lt j hj := Nat.succ_lt_succ (h.lt j hj)
  last := congrArg (· + 1) h.last
  first hf := by simp only at hf; rw [hr] at hf; cases hf
  next j s hs hr := congrArg (· + 1) (h.next j s hs hr)

/-- Without the first tag, which the first step matches. -/
theorem tail {next : Step} (h : Addressing ⟨step, next :: later⟩ (tag :: tags) place)
    (h0 : place 0 = 0) : Addressing ⟨next, later⟩ tags fun j => place (j + 1) - 1 where
  admits j s hs := by
    obtain ⟨t, ht, ha⟩ := h.admits (j + 1) s hs
    have hj : j < (next :: later).length := (List.getElem?_eq_some_iff.1 hs).1
    have hp := h.lt j hj
    rw [show place (j + 1) = place (j + 1) - 1 + 1 by omega, List.getElem?_cons_succ] at ht
    exact ⟨t, ht, ha⟩
  lt j hj := by
    have h₁ := h.lt j (Nat.lt_succ_of_lt hj)
    have h₂ := h.lt (j + 1) (Nat.succ_lt_succ hj)
    show place (j + 1) - 1 < place (j + 1 + 1) - 1
    omega
  last := by
    have h₁ := h.last
    have h₂ := h.lt later.length (Nat.lt_succ_self _)
    simp only [List.length_cons] at h₁ h₂ ⊢
    omega
  first hr := by
    have := h.next 0 next rfl hr
    show place (0 + 1) - 1 = 0
    omega
  next j s hs hr := by
    have h₁ := h.next (j + 1) s hs hr
    have h₂ := h.lt j (Nat.lt_succ_of_lt (List.getElem?_eq_some_iff.1 hs).1)
    show place (j + 1 + 1) - 1 = place (j + 1) - 1 + 1
    omega

/-- Without the first tag, which no step matches. -/
theorem shift (h : Addressing ⟨step, later⟩ (tag :: tags) place) (h0 : place 0 ≠ 0) :
    Addressing ⟨step, later⟩ tags fun j => place j - 1 where
  admits j s hs := by
    obtain ⟨t, ht, ha⟩ := h.admits j s hs
    have hj := (List.getElem?_eq_some_iff.1 hs).1
    have hp := h.place_zero_le j (by simp only [steps, List.length_cons] at hj; omega)
    rw [show place j = place j - 1 + 1 by omega, List.getElem?_cons_succ] at ht
    exact ⟨t, ht, ha⟩
  lt j hj := by
    have h₁ := h.lt j hj
    have h₂ := h.place_zero_le j (Nat.le_of_lt hj)
    show place j - 1 < place (j + 1) - 1
    omega
  last := by
    have h₁ := h.last
    have h₂ := h.place_zero_le later.length (Nat.le_refl _)
    simp only [List.length_cons] at h₁ ⊢
    omega
  first hr := absurd (h.first hr) h0
  next j s hs hr := by
    have h₁ := h.next j s hs hr
    have h₂ := h.place_zero_le j (Nat.le_of_lt (List.getElem?_eq_some_iff.1 hs).1)
    show place (j + 1) - 1 = place j - 1 + 1
    omega

theorem embeds : ∀ {step : Step} {later : List Step} {tags : List Tag} {place : Nat → Nat},
    Addressing ⟨step, later⟩ tags place → Embeds step later tags
  | _, _, [], _, h => absurd h.last (by simp)
  | step, later, tag :: tags, place, h => by
    -- either the first step takes the first tag, or every step lies behind it
    by_cases h0 : place 0 = 0
    · obtain ⟨t, ht, ha⟩ := h.admits 0 step rfl
      rw [h0] at ht
      cases ht
      cases later with
      | nil =>
        have := h.last
        simp only [List.length_nil, List.length_cons, h0] at this
        cases List.length_eq_zero_iff.1 (show tags.length = 0 by omega)
        exact .last ha
      | cons next later => exact .next ha (embeds (h.tail h0))
    · have hr : step.recursive = true := by
        cases hr : step.recursive
        · exact absurd (h.first hr) h0
        · rfl
      exact .gap hr (embeds (h.shift h0))

end Addressing

theorem addresses_iff_embeds {step : Step} {later : List Step} {tags : List Tag} :
    Addresses ⟨step, later⟩ tags ↔ Embeds step later tags := by
  constructor
  · rintro ⟨place, h⟩; exact h.embeds
  · intro h
    induction h with
    | last ha => exact ⟨_, .of_last ha⟩
    | next ha _ ih => obtain ⟨place, h⟩ := ih; exact ⟨_, h.cons ha⟩
    | gap hr _ ih => obtain ⟨place, h⟩ := ih; exact ⟨_, h.gap hr⟩

/-! ## Capturing -/

theorem captures_nil (chain : Chain) (tag : Tag) :
    chain.captures [] tag = (chain.offer tag == .capture) := rfl

theorem captures_descend {chain inner : Chain} {outer : Tag} (h : chain.offer outer = .descend inner)
    (above : List Tag) (tag : Tag) : chain.captures (outer :: above) tag = inner.captures above tag := by
  rw [captures, follow_descend h, captures]

variable {step next : Step} {later : List Step} {tag : Tag}

theorem offer_admits_last (h : step.admits tag = true) : offer ⟨step, []⟩ tag = .capture := by
  simp [offer, h]

theorem offer_admits_next (h : step.admits tag = true) :
    offer ⟨step, next :: later⟩ tag = .descend ⟨next, later⟩ := by
  simp [offer, h]

theorem offer_recursive (h : step.admits tag = false) (hr : step.recursive = true) :
    offer ⟨step, later⟩ tag = .descend ⟨step, later⟩ := by
  simp [offer, h, hr]

theorem offer_plain (h : step.admits tag = false) (hr : step.recursive = false) :
    offer ⟨step, later⟩ tag = .skip := by
  simp [offer, h, hr]

/-- What is captured is addressed: the matcher's own choices are an embedding. -/
theorem embeds_of_captures : ∀ {step : Step} {later : List Step} {above : List Tag} {tag : Tag},
    captures ⟨step, later⟩ above tag = true → Embeds step later (above ++ [tag])
  | step, later, [], tag, h => by
    rw [captures_nil] at h
    cases ha : step.admits tag with
    | true =>
      cases later with
      | nil => exact .last ha
      | cons next later => rw [offer_admits_next ha] at h; cases h
    | false =>
      cases hr : step.recursive
      · rw [offer_plain ha hr] at h; cases h
      · rw [offer_recursive ha hr] at h; exact absurd h (by simp)
  | step, later, outer :: above, tag, h => by
    cases ha : step.admits outer with
    | true =>
      cases later with
      | nil =>
        rw [captures, follow_eq_none (by rw [offer_admits_last ha]; intro _ he; cases he)] at h
        cases h
      | cons next later =>
        rw [captures_descend (offer_admits_next ha)] at h
        exact .next ha (embeds_of_captures h)
    | false =>
      cases hr : step.recursive with
      | true =>
        rw [captures_descend (offer_recursive ha hr)] at h
        exact .gap hr (embeds_of_captures h)
      | false =>
        rw [captures, follow_eq_none (by rw [offer_plain ha hr]; intro _ he; cases he)] at h
        cases h

namespace Embeds

/-- A recursive step that matches behind another one matches without it, too. -/
theorem exchange (hr : next.recursive = true) : ∀ {tags : List Tag},
    Embeds step (next :: later) tags → Embeds next later tags
  | _, .next _ h => .gap hr h
  | _, .gap _ h => .gap hr (exchange hr h)

/-- Where gaps come last, an embedding makes the matcher capture something on the way. -/
theorem exists_captures : ∀ {tags : List Tag} {step : Step} {later : List Step},
    GapsLast ⟨step, later⟩ → Embeds step later tags →
      ∃ a t b, tags = a ++ t :: b ∧ captures ⟨step, later⟩ a t = true
  | [], _, _, _, h => nomatch h
  | tag :: tags, step, later, hg, h => by
    cases ha : step.admits tag with
    | true =>
      cases later with
      | nil => exact ⟨[], tag, tags, rfl, by rw [captures_nil, offer_admits_last ha]; rfl⟩
      | cons next later =>
        -- whichever way the embedding goes, the later steps embed behind this tag
        have hn : Embeds next later tags := by
          cases h with
          | next _ h => exact h
          | gap hr h => exact h.exchange ((List.pairwise_cons.1 hg).1 next List.mem_cons_self hr)
        obtain ⟨a, t, b, rfl, hc⟩ := exists_captures (List.pairwise_cons.1 hg).2 hn
        exact ⟨tag :: a, t, b, rfl, by rw [captures_descend (offer_admits_next ha)]; exact hc⟩
    | false =>
      cases h with
      | last h => rw [h] at ha; cases ha
      | next h _ => rw [h] at ha; cases ha
      | gap hr h =>
        obtain ⟨a, t, b, rfl, hc⟩ := exists_captures hg h
        exact ⟨tag :: a, t, b, rfl, by rw [captures_descend (offer_recursive ha hr)]; exact hc⟩

end Embeds

end Chain

namespace Selector

/-- What an extraction without limits answers is addressed; and if in the chain no plain step
comes behind a recursive one, every element addressed is captured or lies in one that is. -/
theorem captured_addressed (selector : Selector) (forest : Forest) :
    selector.extract .none (Feed.ofEvents forest.events) =
        (forest.captured selector.chain).map (fun e => .ok e.fragment) ∧
      (∀ e ∈ forest.captured selector.chain, selector.chain.Addresses e.path) ∧
      (selector.chain.GapsLast → ∀ e ∈ forest.elements, selector.chain.Addresses e.path →
        ∃ outer ∈ forest.captured selector.chain, e.Within outer) := by
  refine ⟨items_forest selector forest, fun e he => ?_, fun hg e he ha => ?_⟩
  · exact Chain.addresses_iff_embeds.2 (Chain.embeds_of_captures (List.mem_filter.1 he).2)
  · obtain ⟨a, t, b, hp, hc⟩ := (Chain.addresses_iff_embeds.1 ha).exists_captures hg
    obtain ⟨outer, ho, hoa, hot, hw⟩ := Forest.exists_around he hp
    rw [List.nil_append] at hoa
    exact ⟨outer, List.mem_filter.2 ⟨ho, by rw [hoa, hot]; exact hc⟩, hw⟩

/-- An element inside one of its own name is addressed, and lies inside the captured one. -/
theorem captured_addressed_nested :
    let selector : Selector := ⟨"/r//a", ⟨⟨some "r", none, false⟩, [⟨some "a", none, true⟩]⟩⟩
    let inner : Forest := .element ⟨"a", []⟩ .empty .empty
    let forest : Forest := .element ⟨"r", []⟩
      (.element ⟨"b", []⟩ (.element ⟨"a", []⟩ inner .empty) .empty) .empty
    let outer : Element := ⟨2, [⟨"r", []⟩, ⟨"b", []⟩], ⟨"a", []⟩, inner⟩
    let e : Element := ⟨3, [⟨"r", []⟩, ⟨"b", []⟩, ⟨"a", []⟩], ⟨"a", []⟩, .empty⟩
    (outer ∈ forest.captured selector.chain ∧ selector.chain.Addresses outer.path) ∧
      selector.chain.GapsLast ∧ e ∈ forest.elements ∧ selector.chain.Addresses e.path ∧
        ∃ outer ∈ forest.captured selector.chain, e.Within outer := by
  intro selector inner forest outer e
  have ho : outer ∈ forest.captured selector.chain := by decide
  have hg : selector.chain.GapsLast := by decide
  have he : e ∈ forest.elements := by decide
  have ha : selector.chain.Addresses e.path :=
    Chain.addresses_iff_embeds.2 (.next rfl (.gap rfl (.gap rfl (.last rfl))))
  obtain ⟨-, sound, complete⟩ := captured_addressed selector forest
  exact ⟨⟨ho, sound outer ho⟩, hg, he, ha, complete hg e he ha⟩

end Selector

end SubtreeHarvest

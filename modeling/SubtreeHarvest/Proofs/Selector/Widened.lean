/-
Steps that admit more. Where the steps of a chain are widened, what the chain captures is still
captured, or lies inside something captured, as long as no plain step comes behind a recursive one
that has changed. The condition is needed: the matcher never goes back, so a recursive step that
admits more may take an element further out, and a plain step behind it then looks in the wrong
place.

Up to the first element that only the wider step takes the two chains descend alike. From there on
every step left is recursive, so a match that comes too late for the wider chain can be had earlier.
-/
import Mathlib.Data.List.Forall2
import SubtreeHarvest.Proofs.Selector.Addressed

namespace SubtreeHarvest

/-- The steps differ in their predicates only, and the other one admits at least as much. -/
structure Step.Widens (step wider : Step) : Prop where
  name : wider.name = step.name
  recursive : wider.recursive = step.recursive
  admits : ∀ tag, step.admits tag = true → wider.admits tag = true

theorem Step.Widens.refl (step : Step) : step.Widens step :=
  ⟨rfl, rfl, fun _ h => h⟩

namespace Chain

/-- Each step of the other chain is wider than the one in its place. -/
def Widens (chain wider : Chain) : Prop :=
  List.Forall₂ Step.Widens chain.steps wider.steps

/-- No plain step comes behind a recursive one that is not the same in both chains. -/
def GapsBehindChanges (chain other : Chain) : Prop :=
  (chain.steps.zip other.steps).Pairwise fun pair behind =>
    pair.1.recursive = true → pair.1 ≠ pair.2 → behind.1.recursive = true

instance (chain other : Chain) : Decidable (chain.GapsBehindChanges other) :=
  inferInstanceAs (Decidable (List.Pairwise _ _))

/-- Wider steps match wherever the steps match. -/
theorem Embeds.widen {step : Step} {later : List Step} {tags : List Tag} (h : Embeds step later tags) :
    ∀ {wider : Step} {others : List Step}, step.Widens wider → List.Forall₂ Step.Widens later others →
      Embeds wider others tags := by
  induction h with
  | last ha =>
    intro wider others hw ho
    cases ho
    exact .last (hw.admits _ ha)
  | next ha _ ih =>
    intro wider others hw ho
    cases ho with
    | cons hn ho => exact .next (hw.admits _ ha) (ih hn ho)
  | gap hr _ ih =>
    intro wider others hw ho
    exact .gap (hw.recursive.trans hr) (ih hw ho)

/-- Steps wider than recursive ones are recursive. -/
theorem recursive_of_zip {later others : List Step} (h : List.Forall₂ Step.Widens later others) :
    (∀ pair ∈ later.zip others, pair.1.recursive = true) → ∀ step ∈ others, step.recursive = true := by
  induction h with
  | nil => intro _ step hs; cases hs
  | @cons step wider later others hw _ ih =>
    intro hr other ho
    rw [List.zip_cons_cons, List.forall_mem_cons] at hr
    rcases List.mem_cons.1 ho with rfl | ho
    · exact hw.recursive.trans hr.1
    · exact ih hr.2 other ho

/-- Where the wider steps are all recursive, the first tag on the way that one of them admits may as
well be taken. -/
theorem exists_captures_of_recursive {next other : Step} {later others : List Step} {tags : List Tag}
    (h : Embeds next later tags) (hn : next.Widens other) (ho : List.Forall₂ Step.Widens later others)
    (hr : ∀ step ∈ other :: others, step.recursive = true) :
    ∃ a t b, tags = a ++ t :: b ∧ captures ⟨other, others⟩ a t = true :=
  (h.widen hn ho).exists_captures
    (List.pairwise_of_forall_mem_list fun _ _ step hs _ => hr step hs)

/-- On the way to what a chain captures a wider one captures something, if no plain step comes
behind a recursive one that has changed. -/
theorem exists_captures_widened : ∀ {above : List Tag} {step wider : Step} {later others : List Step}
    {tag : Tag}, step.Widens wider → List.Forall₂ Step.Widens later others →
      GapsBehindChanges ⟨step, later⟩ ⟨wider, others⟩ → captures ⟨step, later⟩ above tag = true →
      ∃ a t b, above ++ [tag] = a ++ t :: b ∧ captures ⟨wider, others⟩ a t = true
  | [], step, wider, later, others, tag, hw, ho, hg, h => by
    rw [captures_nil] at h
    cases ha : step.admits tag with
    | true =>
      cases ho with
      | nil => exact ⟨[], tag, [], rfl, by rw [captures_nil, offer_admits_last (hw.admits tag ha)]; rfl⟩
      | cons _ _ => rw [offer_admits_next ha] at h; cases h
    | false =>
      cases hr : step.recursive
      · rw [offer_plain ha hr] at h; cases h
      · rw [offer_recursive ha hr] at h; simp at h
  | outer :: above, step, wider, later, others, tag, hw, ho, hg, h => by
    obtain ⟨first, rest⟩ := List.pairwise_cons.1 hg
    cases ha : step.admits outer with
    | true =>
      -- both chains go on behind the tag
      cases ho with
      | nil =>
        rw [captures, follow_eq_none (by rw [offer_admits_last ha]; intro _ he; cases he)] at h
        cases h
      | cons hn ho =>
        rw [captures_descend (offer_admits_next ha)] at h
        obtain ⟨a, t, b, he, hc⟩ := exists_captures_widened hn ho rest h
        refine ⟨outer :: a, t, b, by rw [List.cons_append, he]; rfl, ?_⟩
        rw [captures_descend (offer_admits_next (hw.admits outer ha))]
        exact hc
    | false =>
      have hr : step.recursive = true := by
        cases hr : step.recursive with
        | true => rfl
        | false =>
          rw [captures, follow_eq_none (by rw [offer_plain ha hr]; intro _ he; cases he)] at h
          cases h
      cases hb : wider.admits outer with
      | false =>
        -- both chains pass the tag over
        rw [captures_descend (offer_recursive ha hr)] at h
        obtain ⟨a, t, b, he, hc⟩ := exists_captures_widened hw ho hg h
        refine ⟨outer :: a, t, b, by rw [List.cons_append, he]; rfl, ?_⟩
        rw [captures_descend (offer_recursive hb (hw.recursive.trans hr))]
        exact hc
      | true =>
        -- the wider step takes the tag too early, and only recursive steps are left
        have changed : step ≠ wider := by
          rintro rfl
          rw [ha] at hb; cases hb
        have left := recursive_of_zip ho fun pair hp => first pair hp hr changed
        cases ho with
        | nil =>
          exact ⟨[], outer, above ++ [tag], rfl, by rw [captures_nil, offer_admits_last hb]; rfl⟩
        | cons hn ho =>
          have recursive := hn.recursive.symm.trans (left _ List.mem_cons_self)
          rw [captures_descend (offer_recursive ha hr)] at h
          obtain ⟨a, t, b, he, hc⟩ :=
            exists_captures_of_recursive ((embeds_of_captures h).exchange recursive) hn ho left
          refine ⟨outer :: a, t, b, by rw [List.cons_append, he]; rfl, ?_⟩
          rw [captures_descend (offer_admits_next hb)]
          exact hc

end Chain

/-- What a chain captures in a forest a wider one captures, or captures something around it. -/
theorem Forest.exists_captured_widened {chain wider : Chain} (hw : chain.Widens wider)
    (hg : chain.GapsBehindChanges wider) (forest : Forest) {e : Element}
    (he : e ∈ forest.captured chain) : ∃ outer ∈ forest.captured wider, e.Within outer := by
  obtain ⟨hm, hc⟩ := List.mem_filter.1 he
  cases hw with
  | cons hf hl =>
    obtain ⟨a, t, b, hp, hc⟩ := Chain.exists_captures_widened hf hl hg hc
    obtain ⟨outer, ho, habove, htag, hin⟩ := Forest.exists_around hm hp
    rw [List.nil_append] at habove
    exact ⟨outer, List.mem_filter.2 ⟨ho, by rw [habove, htag]; exact hc⟩, hin⟩

end SubtreeHarvest

/-
Extraction with a selector for any element. The chain captures every start tag that it is offered, so
the extraction never descends: whatever the source answers, the frame of the selector is the only one
from the first event to the last. Over a forest this yields the elements at the top, one fragment each.
-/
import SubtreeHarvest.Proofs.Extract.Captured
import SubtreeHarvest.Proofs.Extract.Frames
import SubtreeHarvest.Proofs.Selector.AnyElement

namespace SubtreeHarvest

/-! ## Elements at the top -/

/-- The elements of a forest that lie in no other, in document order. -/
def Forest.topmost (forest : Forest) : List Element :=
  forest.elements.filter (·.above.isEmpty)

theorem Chain.captures_anyElement (above : List Tag) (tag : Tag) :
    Chain.anyElement.captures above tag = above.isEmpty := by
  cases above with
  | nil => rw [captures_of_follow rfl, offer_anyElement]; rfl
  | cons outer above =>
    have stops : ∀ inner, Chain.anyElement.offer outer ≠ .descend inner := by
      rw [offer_anyElement]
      exact fun _ => nofun
    rw [captures, follow_eq_none stops]
    rfl

theorem Forest.captured_anyElement (forest : Forest) :
    forest.captured Chain.anyElement = forest.topmost :=
  List.filter_congr fun e _ => Chain.captures_anyElement e.above e.tag

/-! ## One frame -/

namespace Matcher

variable {limits : Limits} {m m₁ : Matcher} {event : Event}

/-- An event leaves the one frame of a chain that captures every element. -/
theorem frames_anyElement (hm : m.frames = [Chain.anyElement])
    (h : m.consume limits event = .goesOn m₁) : m₁.frames = [Chain.anyElement] := by
  have rule : Consumes limits m event (.goesOn m₁) := h ▸ consumes m event
  cases rule with
  | descends ho hd =>
    obtain rfl := (List.cons.inj hm).1
    cases (Chain.offer_anyElement _).symm.trans ho
  | comesUp => cases (List.cons.inj hm).2
  | captures | skips | passesText | passesCdata | passesOver | skipped | writes => exact hm

end Matcher

namespace Extraction

variable {σ : Type} [EventStream σ] {x y : Extraction σ}

theorem Leads.frames_anyElement (hx : x.matcher.frames = [Chain.anyElement]) (h : x.Leads y) :
    y.matcher.frames = [Chain.anyElement] := by
  cases h with
  | goesOn _ hc => exact Matcher.frames_anyElement hx hc
  | fragment _ hc => exact (Matcher.frames_of_fragment hc).trans hx

theorem Passes.frames_anyElement (hx : x.matcher.frames = [Chain.anyElement]) (h : x.Passes y) :
    y.matcher.frames = [Chain.anyElement] := by
  induction h with
  | refl => exact hx
  | tail _ h ih => exact h.frames_anyElement ih

/-- No call opens a frame. -/
theorem depth_anyElement (hf : x.finished = false) (hx : x.matcher.frames = [Chain.anyElement]) (k : Nat) :
    (x.after k).depth = 0 := by
  obtain ⟨z, hz, le, -⟩ := exists_passes_after k hf
  have frames := hz.frames_anyElement hx
  have flat : z.depth = 0 := by rw [depth, Matcher.depth, frames]; rfl
  exact Nat.le_zero.1 (flat ▸ le)

end Extraction

namespace Selector

open Extraction

/-- A selector is one for any element exactly if its expression is a slash and, between that slash and
every further one, only gaps: what is blank, or a star. Every such expression compiles. Without limits
the extraction then finds in a forest the elements at the top, one fragment for each in document order,
and no failure; the frame of the selector is the only one at every event, and behind every call no
element is open that was descended into. -/
theorem extract_anyElement (expression : String) :
    (∀ selector, compile expression = .ok selector → ∃ rest, expression.toList = '/' :: rest ∧
      (selector.isAnyElement = true ↔ OnlyGaps rest)) ∧
    (∀ rest, expression.toList = '/' :: rest → OnlyGaps rest →
      ∃ selector, compile expression = .ok selector ∧ selector.isAnyElement = true) ∧
    (∀ special ∈ ["/", "//", "/*", "/*/*", "///"],
      ∃ selector, compile special = .ok selector ∧ selector.isAnyElement = true) ∧
    ∀ selector, compile expression = .ok selector → selector.isAnyElement = true → ∀ forest : Forest,
      let x := begin selector .none (Feed.ofEvents forest.events)
      x.items = forest.topmost.map (fun e => .ok e.fragment) ∧
        (∀ z, x.Passes z → z.matcher.frames = [selector.chain]) ∧ ∀ k, (x.after k).depth = 0 := by
  refine ⟨fun selector hc => ?_, fun rest he gaps => ?_, ?_, fun selector hc any forest => ?_⟩
  · rcases compile_cases expression with ⟨-, reason, -, failed⟩ | ⟨chain, parts, written, compiled⟩
    · cases failed.symm.trans hc
    · cases compiled.symm.trans hc
      rw [isAnyElement_iff]
      exact written.eq_anyElement_iff
  · exact ⟨_, compile_of_onlyGaps he gaps, isAnyElement_iff.2 rfl⟩
  · simp only [List.forall_mem_cons]
    exact ⟨⟨_, rfl, rfl⟩, ⟨_, rfl, rfl⟩, ⟨_, rfl, rfl⟩, ⟨_, rfl, rfl⟩, ⟨_, rfl, rfl⟩, nofun⟩
  · intro x
    have chain := isAnyElement_iff.1 any
    have frames : x.matcher.frames = [Chain.anyElement] := congrArg (fun chain => [chain]) chain
    refine ⟨?_, fun z hz => ?_, depth_anyElement rfl frames⟩
    · have items := items_forest selector forest
      rwa [chain, Forest.captured_anyElement] at items
    · rw [hz.frames_anyElement frames, chain]

/-- Stars, blanks and slashes select the two elements at the top, and not the one inside; a star with a
group behind it tests nothing and still is no gap. -/
theorem extract_anyElement_gaps :
    let inner : Forest := .element ⟨"b", []⟩ .empty .empty
    let forest : Forest := .text " " (.element ⟨"a", []⟩ inner (.element ⟨"c", []⟩ .empty .empty))
    (∃ selector, compile "/ //*/" = .ok selector ∧ selector.isAnyElement = true ∧
      (begin selector .none (Feed.ofEvents forest.events)).items =
        [.ok ⟨"<a><b></b></a>"⟩, .ok ⟨"<c></c>"⟩] ∧
      ∀ k, ((begin selector .none (Feed.ofEvents forest.events)).after k).depth = 0) ∧
    ∃ selector, compile "/*[1]" = .ok selector ∧ selector.isAnyElement = false := by
  intro inner forest
  have gaps : OnlyGaps " //*/".toList := onlyGaps_iff.2 (by decide)
  obtain ⟨-, compiles, -, extracts⟩ := extract_anyElement "/ //*/"
  obtain ⟨selector, hc, any⟩ := compiles _ rfl gaps
  obtain ⟨items, -, flat⟩ := extracts selector hc any forest
  refine ⟨⟨selector, hc, any, items.trans ?_, flat⟩, ?_⟩
  · decide
  · obtain ⟨iff, -⟩ := extract_anyElement "/*[1]"
    have compiled : ∃ selector, compile "/*[1]" = .ok selector := ⟨_, rfl⟩
    obtain ⟨grouped, hg⟩ := compiled
    obtain ⟨rest, he, universal⟩ := iff grouped hg
    refine ⟨grouped, hg, Bool.eq_false_iff.2 fun any => ?_⟩
    obtain rfl : rest = "*[1]".toList := (List.cons.inj he).2.symm
    exact absurd (onlyGaps_iff.1 (universal.1 any)) (by decide)

end Selector

end SubtreeHarvest

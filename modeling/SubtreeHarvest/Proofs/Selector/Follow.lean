/-
A chain offered the start tags on the way down to an element, one after the other. The element is
captured when the chain descends at every tag but the last and captures at that one. Main fact:
nothing is captured inside an element that is itself captured or skipped.
-/
import SubtreeHarvest.Proofs.Forest.Basic
import SubtreeHarvest.Selector.Chain

namespace SubtreeHarvest

namespace Chain

/-- The chain in effect inside elements with these start tags, each inside the one before; none
if one of them is not descended into. -/
def follow (chain : Chain) : List Tag → Option Chain
  | [] => some chain
  | tag :: tags =>
    match chain.offer tag with
    | .descend inner => inner.follow tags
    | _ => none

/-- The chain descends into the elements `above` and captures the element `tag` in them. -/
def captures (chain : Chain) (above : List Tag) (tag : Tag) : Bool :=
  (chain.follow above).any fun inner => inner.offer tag == .capture

variable {chain inner : Chain} {tag : Tag}

theorem follow_descend (h : chain.offer tag = .descend inner) (tags : List Tag) :
    chain.follow (tag :: tags) = inner.follow tags := by
  rw [follow, h]

theorem follow_eq_none (h : ∀ inner, chain.offer tag ≠ .descend inner) (tags : List Tag) :
    chain.follow (tag :: tags) = none := by
  rw [follow]
  split
  · rename_i inner hi; exact absurd hi (h inner)
  · rfl

theorem follow_append : ∀ (chain : Chain) (tags more : List Tag),
    chain.follow (tags ++ more) = (chain.follow tags).bind fun inner => inner.follow more
  | _, [], _ => rfl
  | chain, tag :: tags, more => by
    rw [List.cons_append]
    by_cases h : ∃ inner, chain.offer tag = .descend inner
    · obtain ⟨inner, h⟩ := h
      rw [follow_descend h, follow_descend h, follow_append inner tags more]
    · rw [follow_eq_none (fun inner hi => h ⟨inner, hi⟩), follow_eq_none (fun inner hi => h ⟨inner, hi⟩)]
      rfl

theorem captures_of_follow {above : List Tag} (h : chain.follow above = some inner) (tag : Tag) :
    chain.captures above tag = (inner.offer tag == .capture) := by
  rw [captures, h]; rfl

/-- The chain for any element captures the first that it is offered. -/
theorem offer_anyElement (tag : Tag) : anyElement.offer tag = .capture := rfl

/-- Nothing is captured inside an element that is not descended into. -/
theorem captures_inside {above more : List Tag} {outer : Tag} (h : chain.follow above = some inner)
    (ho : ∀ next, inner.offer outer ≠ .descend next) (tag : Tag) :
    chain.captures (above ++ [outer] ++ more) tag = false := by
  rw [captures, List.append_assoc, follow_append, h, Option.bind_some, List.singleton_append,
    follow_eq_none ho]
  rfl

end Chain

namespace Forest

/-- The elements of a forest that a chain captures, in document order. -/
def captured (chain : Chain) (forest : Forest) : List Element :=
  forest.elements.filter fun e => chain.captures e.above e.tag

variable {root chain : Chain} {start : Nat} {above : List Tag} {tag : Tag}

/-- The elements captured among those of a part of a document. -/
def capturedFrom (root : Chain) (start : Nat) (above : List Tag) (forest : Forest) : List Element :=
  (forest.elementsFrom start above).filter fun e => root.captures e.above e.tag

theorem capturedFrom_inside (h : root.follow above = some chain)
    (ho : ∀ next, chain.offer tag ≠ .descend next) (forest : Forest) (start : Nat) :
    forest.capturedFrom root start (above ++ [tag]) = [] := by
  rw [capturedFrom, List.filter_eq_nil_iff]
  intro e he
  obtain ⟨⟨more, hm⟩, -⟩ := place_of_mem he
  rw [← hm, Chain.captures_inside h ho]
  decide

variable (inside behind : Forest)

theorem capturedFrom_of_capture (h : root.follow above = some chain)
    (ho : chain.offer tag = .capture) :
    (element tag inside behind).capturedFrom root start above = ⟨start, above, tag, inside⟩ ::
      behind.capturedFrom root (start + inside.events.length + 2) above := by
  have hn : ∀ next, chain.offer tag ≠ .descend next := by rw [ho]; exact fun _ => nofun
  have hi := capturedFrom_inside h hn inside (start + 1)
  rw [capturedFrom, elementsFrom, List.filter_cons, List.filter_append, Chain.captures_of_follow h, ho]
  exact congrArg (_ :: · ++ _) hi

theorem capturedFrom_of_skip (h : root.follow above = some chain) (ho : chain.offer tag = .skip) :
    (element tag inside behind).capturedFrom root start above =
      behind.capturedFrom root (start + inside.events.length + 2) above := by
  have hn : ∀ next, chain.offer tag ≠ .descend next := by rw [ho]; exact fun _ => nofun
  have hi := capturedFrom_inside h hn inside (start + 1)
  rw [capturedFrom, elementsFrom, List.filter_cons, List.filter_append, Chain.captures_of_follow h, ho]
  exact congrArg (· ++ _) hi

theorem capturedFrom_of_descend {next : Chain} (h : root.follow above = some chain)
    (ho : chain.offer tag = .descend next) :
    (element tag inside behind).capturedFrom root start above =
      inside.capturedFrom root (start + 1) (above ++ [tag]) ++
        behind.capturedFrom root (start + inside.events.length + 2) above := by
  rw [capturedFrom, elementsFrom, List.filter_cons, List.filter_append, Chain.captures_of_follow h, ho]
  rfl

/-- Captured elements take up stretches of events that lie apart, in document order. -/
theorem pairwise_capturedFrom : ∀ (forest : Forest) (start : Nat) (above : List Tag) {chain : Chain},
    root.follow above = some chain →
      (forest.capturedFrom root start above).Pairwise fun e e' => e.stop ≤ e'.start
  | .empty, _, _, _, _ => .nil
  | .text _ behind, start, above, _, h => pairwise_capturedFrom behind (start + 1) above h
  | .cdata _ behind, start, above, _, h => pairwise_capturedFrom behind (start + 1) above h
  | .element tag inside behind, start, above, chain, h => by
    have hb := pairwise_capturedFrom behind (start + inside.events.length + 2) above h
    cases ho : chain.offer tag with
    | capture =>
      rw [capturedFrom_of_capture inside behind h ho, List.pairwise_cons]
      refine ⟨fun e he => ?_, hb⟩
      rw [Element.stop_eq]
      exact (place_of_mem (List.mem_filter.1 he).1).2.1
    | skip => rw [capturedFrom_of_skip inside behind h ho]; exact hb
    | descend next =>
      -- what is inside ends before what is behind begins
      have hf : root.follow (above ++ [tag]) = some next := by
        rw [Chain.follow_append, h, Option.bind_some, Chain.follow_descend ho]; rfl
      rw [capturedFrom_of_descend inside behind h ho, List.pairwise_append]
      refine ⟨pairwise_capturedFrom inside (start + 1) _ hf, hb, fun e he e' he' => ?_⟩
      have h₁ := (place_of_mem (List.mem_filter.1 he).1).2.2
      have h₂ := (place_of_mem (List.mem_filter.1 he').1).2.1
      omega

end Forest

end SubtreeHarvest

/-
Extraction over a forest without limits: the fragments are those of the elements that the chain of
the selector captures when it is offered the start tags on the way down to them, in document
order, and then the end comes.

The proof goes along the forest with the stack of frames as invariant: wherever the extraction
searches, the innermost frame is the chain in effect inside the elements open there, and behind a
forest the stack is what it was before it.
-/
import SubtreeHarvest.Proofs.Extract.Consumes
import SubtreeHarvest.Proofs.Selector.Follow

namespace SubtreeHarvest

namespace Extraction

open EventStream Event

variable {σ : Type} [EventStream σ] {s s' : σ} {limits : Limits} {n : Nat} {chain : Chain}
  {below : List Chain} {tag : Tag} {name : String}

/-! ## One element -/

theorem next_of_skip {inside : List Event} (ho : chain.offer tag = .skip)
    (ha : Answers s (.startTag tag :: (inside ++ [.endTag name])) s')
    (hd : depthBehind 0 inside = some 0) :
    next ⟨s, ⟨chain :: below, .searching⟩, limits, n, false⟩ =
      next ⟨s', ⟨chain :: below, .searching⟩, limits, n, false⟩ := by
  obtain ⟨s₁, hn, ha⟩ := ha
  obtain ⟨s₂, hi, he⟩ := (answers_append ..).1 ha
  rw [next_goesOn hn (Matcher.consume_skip ho), next_skipping hi hd]
  exact next_goesOn ((answers_singleton ..).1 he) rfl

/-- A captured element is the next item if it is empty or within the limit without its end tag. -/
theorem next_of_capture {inside : List Event} (ho : chain.offer tag = .capture)
    (ha : Answers s (.startTag tag :: (inside ++ [.endTag name])) s')
    (hd : depthBehind 0 inside = some 0)
    (hs : inside = [] ∨ limits.Admits (writtenAll (.startTag tag :: inside))) :
    next ⟨s, ⟨chain :: below, .searching⟩, limits, n, false⟩ =
      (some (.ok ⟨writtenAll (.startTag tag :: (inside ++ [.endTag name]))⟩),
        ⟨s', ⟨chain :: below, .searching⟩, limits, n + 1, false⟩) := by
  obtain ⟨s₁, hn, ha⟩ := ha
  obtain ⟨s₂, hi, he⟩ := (answers_append ..).1 ha
  rw [next_goesOn hn (Matcher.consume_capture ho), next_capturing hi hd hs,
    next_fragment ((answers_singleton ..).1 he) rfl, writtenAll, writtenAll_append,
    writtenAll_singleton, String.append_assoc]

/-! ## Forests -/

/-- Searching through a forest answers the captured elements and leaves the frames as they were. -/
theorem items_searching {root : Chain} : ∀ (forest : Forest) (start : Nat) (above : List Tag)
    {chain : Chain} {below : List Chain} {s s' : σ} {n : Nat},
    root.follow above = some chain → Answers s forest.events s' →
      items ⟨s, ⟨chain :: below, .searching⟩, .none, n, false⟩ =
        (forest.capturedFrom root start above).map (fun e => .ok e.fragment) ++
          items ⟨s', ⟨chain :: below, .searching⟩, .none,
            n + (forest.capturedFrom root start above).length, false⟩
  | .empty, _, _, _, _, _, _, _, _, ha => by cases ha; rfl
  | .text content behind, start, above, _, _, _, _, _, h, ⟨s₁, hn, ha⟩ => by
    rw [items_goesOn hn rfl]
    exact items_searching behind (start + 1) above h ha
  | .cdata content behind, start, above, _, _, _, _, _, h, ⟨s₁, hn, ha⟩ => by
    rw [items_goesOn hn rfl]
    exact items_searching behind (start + 1) above h ha
  | .element tag inside behind, start, above, chain, below, s, s', n, h, ha => by
    obtain ⟨s₁, hn, ha⟩ := ha
    obtain ⟨s₂, hi, s₃, he, hb⟩ := (answers_append ..).1 ha
    -- all of the element, for the verdicts that pass over what is inside
    have hd := depthBehind_forest 0 inside
    have hw : Answers s (.startTag tag :: (inside.events ++ [.endTag tag.name])) s₃ :=
      ⟨s₁, hn, (answers_append ..).2 ⟨s₂, hi, (answers_singleton ..).2 he⟩⟩
    cases ho : chain.offer tag with
    | capture =>
      rw [Forest.capturedFrom_of_capture inside behind h ho, List.map_cons, List.length_cons,
        items_of_some (next_of_capture ho hw hd (.inr (Limits.admits_none _))),
        items_searching behind (start + inside.events.length + 2) above h hb]
      simp only [List.cons_append, Element.fragment, Element.events, Nat.add_assoc, Nat.add_comm 1]
    | skip =>
      rw [Forest.capturedFrom_of_skip inside behind h ho, items_congr (next_of_skip ho hw hd)]
      exact items_searching behind _ above h hb
    | descend inner =>
      -- a frame is put on top for the inside, and the end tag takes it off again
      have hf : root.follow (above ++ [tag]) = some inner := by
        rw [Chain.follow_append, h, Option.bind_some, Chain.follow_descend ho]; rfl
      rw [Forest.capturedFrom_of_descend inside behind h ho, items_goesOn hn (Matcher.consume_descend ho (.inl rfl)),
        items_searching inside (start + 1) (above ++ [tag]) hf hi, items_goesOn he Matcher.consume_leave,
        items_searching behind (start + inside.events.length + 2) above h hb]
      simp only [List.map_append, List.append_assoc, List.length_append, Nat.add_assoc]

end Extraction

namespace Selector

open Extraction

/-- Without limits the items of a forest are the fragments of the captured elements. -/
theorem items_forest (selector : Selector) (forest : Forest) :
    selector.extract .none (Feed.ofEvents forest.events) =
      (forest.captured selector.chain).map fun e => .ok e.fragment := by
  have hf : selector.chain.follow [] = some selector.chain := rfl
  have he : EventStream.next (Feed.ofEvents []) = (.ok none, Feed.ofEvents []) := rfl
  rw [Selector.extract, begin, Matcher.ofSelector,
    items_searching forest 0 [] hf (Feed.answers_ofEvents forest.events), items_end he rfl, List.append_nil]
  rfl

/-- Extraction over a forest: its items are the fragments of the captured elements, in document
order, and no failure; each takes up the stretch of events that is its own, and these stretches
lie apart, so that no element is in two fragments and none is captured inside another. -/
theorem extract_forest (selector : Selector) (forest : Forest) :
    selector.extract .none (Feed.ofEvents forest.events) =
        (forest.captured selector.chain).map (fun e => .ok e.fragment) ∧
      (forest.captured selector.chain).Pairwise (fun e e' => e.stop ≤ e'.start) ∧
      ∀ e ∈ forest.captured selector.chain, ∃ before behind,
        forest.events = before ++ e.events ++ behind ∧ before.length = e.start := by
  have hf : selector.chain.follow [] = some selector.chain := rfl
  refine ⟨items_forest selector forest, Forest.pairwise_capturedFrom forest 0 [] hf, fun e he => ?_⟩
  obtain ⟨before, behind, h, hl⟩ := Forest.events_of_mem (List.mem_filter.1 he).1
  exact ⟨before, behind, h, by omega⟩

/-- Of two elements inside each other only the outer one is captured, where it stands. -/
theorem extract_forest_nested :
    let selector : Selector := ⟨"//a", ⟨⟨some "a", none, true⟩, []⟩⟩
    let inner : Forest := .element ⟨"a", []⟩ .empty .empty
    let forest : Forest := .element ⟨"r", []⟩ (.element ⟨"a", []⟩ inner .empty) .empty
    let e : Element := ⟨1, [⟨"r", []⟩], ⟨"a", []⟩, inner⟩
    e ∈ forest.captured selector.chain ∧ ∃ before behind,
      forest.events = before ++ e.events ++ behind ∧ before.length = e.start := by
  intro selector inner forest e
  have h : e ∈ forest.captured selector.chain := by decide
  exact ⟨h, (extract_forest selector forest).2.2 e h⟩

end Selector

end SubtreeHarvest

/-
Extraction over the front part of a forest, cut behind any of its events, without limits. The
fragments are those of the captured elements that are closed at the cut. Where a failure of the
source follows it is the next item; where the end follows there is no failure if every element is
closed, and else one failure that says whether the open elements lead into a captured element, into
a skipped one, or into neither. Behind that nothing is answered any more.

The proof goes along the forest as for a whole one. What the matcher is at the cut is said by the
elements open there: the outermost one that is not descended into decides, if there is one.
-/
import SubtreeHarvest.Proofs.Extract.Calls
import SubtreeHarvest.Proofs.Extract.Captured
import SubtreeHarvest.Proofs.Forest.Cut

namespace SubtreeHarvest

/-- A cut in an element and what stands behind it is inside the element or behind its end tag. -/
theorem Forest.cut_element {inside behind : Forest} {name : String} {seen rest : List Event}
    (h : inside.events ++ .endTag name :: behind.events = seen ++ rest) :
    (∃ more, inside.events = seen ++ more) ∨
      ∃ later, seen = inside.events ++ .endTag name :: later ∧ behind.events = later ++ rest := by
  rcases List.append_eq_append_iff.1 h with ⟨later, hs, hb⟩ | ⟨more, hi, -⟩
  · cases later with
    | nil =>
      rw [List.append_nil] at hs
      exact .inl ⟨[], by rw [hs, List.append_nil]⟩
    | cons event later =>
      obtain ⟨rfl, hl⟩ := List.cons.inj hb
      exact .inr ⟨later, hs, hl⟩
  · exact .inl ⟨more, hi⟩

/-- The front part of a forest closes none of the elements around it. -/
theorem Event.depthBehind_front {forest : Forest} {seen more : List Event}
    (h : forest.events = seen ++ more) (depth : Nat) : ∃ behind, depthBehind depth seen = some behind := by
  have whole := depthBehind_forest depth forest
  rw [h, depthBehind_append] at whole
  obtain ⟨behind, hb, -⟩ := Option.bind_eq_some_iff.1 whole
  exact ⟨behind, hb⟩

namespace Matcher

/-- The matcher searches with the given frames if no element is open; else it says of an end here
what the open elements say. -/
def StandsIn (root : Chain) (frames : List Chain) (opened : List Element) (m : Matcher) : Prop :=
  (opened = [] ∧ m = ⟨frames, .searching⟩) ∨
    (opened ≠ [] ∧ ∃ message, m.truncation? = some message ∧
      ∀ other, root.Interrupted opened other ↔ other = message)

/-- A matcher that searches in at least one element says that an open element is left. -/
theorem truncation_of_searching (inner outer : Chain) (below : List Chain) :
    truncation? ⟨inner :: outer :: below, .searching⟩ = some "input ended inside an open element" := by
  have deep : 0 < depth ⟨inner :: outer :: below, .searching⟩ := Nat.succ_pos _
  simp only [truncation?, deep, if_true]

/-- What the matcher is inside an element that is descended into, it is around the element. -/
theorem StandsIn.of_descend {root chain next : Chain} {below : List Chain} {e : Element}
    {inner : List Element} {m : Matcher} (hm : StandsIn root (next :: chain :: below) inner m)
    (h : root.follow e.above = some chain) (ho : chain.offer e.tag = .descend next) :
    StandsIn root (chain :: below) (e :: inner) m := by
  refine .inr ⟨List.cons_ne_nil _ _, ?_⟩
  rcases hm with ⟨rfl, rfl⟩ | ⟨filled, message, hm, hu⟩
  · refine ⟨_, truncation_of_searching next chain below, fun other => ?_⟩
    have none : ¬ root.Interrupted [] other := Chain.not_interrupted_nil
    rw [Chain.interrupted_of_descend h ho]
    simp only [true_and, none, or_false]
  · refine ⟨message, hm, fun other => ?_⟩
    rw [Chain.interrupted_of_descend h ho, hu]
    simp only [filled, false_and, false_or]

end Matcher

namespace Extraction

open EventStream Event Matcher

variable {σ : Type} [EventStream σ]

/-- Searching through the front part of a forest answers the captured elements closed there, and
comes to a matcher that stands in the elements open there. -/
theorem items_cut {root : Chain} : ∀ (forest : Forest) (start : Nat) (above : List Tag)
    (below : List Chain) {seen rest : List Event} {chain : Chain} {s s' : σ} {n : Nat},
    root.follow above = some chain → forest.events = seen ++ rest → Answers s seen s' →
      ∃ m n', items ⟨s, ⟨chain :: below, .searching⟩, .none, n, false⟩ =
          (forest.closedFrom root start above (start + seen.length)).map (fun e => .ok e.fragment) ++
            items ⟨s', m, .none, n', false⟩ ∧
        StandsIn root (chain :: below) (forest.openFrom start above (start + seen.length)) m
  | forest, start, above, below, [], _, chain, s, _, n, _, _, ha => by
    cases ha
    have front : start + ([] : List Event).length ≤ start := Nat.le_refl _
    refine ⟨⟨chain :: below, .searching⟩, n, ?_, .inl ⟨Forest.openFrom_front front, rfl⟩⟩
    rw [Forest.closedFrom_front front]; rfl
  | .empty, _, _, _, _ :: _, _, _, _, _, _, _, he, _ => by cases he
  | .text _ behind, start, above, below, _ :: seen, _, _, _, _, _, h, he, ha => by
    obtain ⟨rfl, hb⟩ := List.cons.inj he
    obtain ⟨s₁, hn, ha⟩ := ha
    rw [items_goesOn hn rfl, List.length_cons, ← Nat.add_assoc, Nat.add_right_comm]
    exact items_cut behind (start + 1) above below h hb ha
  | .cdata _ behind, start, above, below, _ :: seen, _, _, _, _, _, h, he, ha => by
    obtain ⟨rfl, hb⟩ := List.cons.inj he
    obtain ⟨s₁, hn, ha⟩ := ha
    rw [items_goesOn hn rfl, List.length_cons, ← Nat.add_assoc, Nat.add_right_comm]
    exact items_cut behind (start + 1) above below h hb ha
  | .element tag inside behind, start, above, below, _ :: seen, _, chain, s, _, n, h, he, ha => by
    obtain ⟨rfl, hr⟩ := List.cons.inj he
    obtain ⟨s₁, hn, ha⟩ := ha
    have place : start + (Event.startTag tag :: seen).length = start + 1 + seen.length := by
      rw [List.length_cons]; omega
    rw [place]
    rcases Forest.cut_element hr with ⟨more, hi⟩ | ⟨later, rfl, hb⟩
    · -- the cut is inside the element
      have short : seen.length ≤ inside.events.length := by
        rw [hi, List.length_append]; omega
      rw [Forest.closedFrom_inside tag inside behind (by omega),
        Forest.openFrom_inside tag inside behind (by omega) (by omega)]
      have hin : ∀ e ∈ inside.openFrom (start + 1) (above ++ [tag]) (start + 1 + seen.length),
          above ++ [tag] <+: e.above := fun _ => Forest.above_of_mem_openFrom
      obtain ⟨depth, hd⟩ := depthBehind_front hi 0
      cases ho : chain.offer tag with
      | capture =>
        have hc : ∀ next, chain.offer tag ≠ .descend next := by rw [ho]; intro _ he; cases he
        rw [Forest.closedFrom, Forest.capturedFrom_inside h hc, items_goesOn hn (consume_capture ho),
          items_congr (next_capturing ha hd (.inr (Limits.admits_none _)))]
        exact ⟨_, _, rfl, .inr ⟨List.cons_ne_nil _ _, _, rfl,
          fun _ => Chain.interrupted_of_capture h ho hin⟩⟩
      | skip =>
        have hc : ∀ next, chain.offer tag ≠ .descend next := by rw [ho]; intro _ he; cases he
        rw [Forest.closedFrom, Forest.capturedFrom_inside h hc, items_goesOn hn (consume_skip ho),
          items_congr (next_skipping ha hd)]
        exact ⟨_, _, rfl, .inr ⟨List.cons_ne_nil _ _, _, rfl,
          fun _ => Chain.interrupted_of_skip h ho hin⟩⟩
      | descend next =>
        obtain ⟨m, n', hm, hs⟩ := items_cut (n := n) inside (start + 1) (above ++ [tag]) (chain :: below)
          (Chain.follow_of_descend h ho) hi ha
        rw [items_goesOn hn (consume_descend ho (.inl rfl))]
        exact ⟨m, n', hm, hs.of_descend h ho⟩
    · -- the element is closed at the cut
      obtain ⟨s₂, hi, s₃, hend, ha⟩ := (answers_append ..).1 ha
      have whole : Answers s (Forest.element tag inside .empty).events s₃ :=
        ⟨s₁, hn, (answers_append ..).2 ⟨s₂, hi, (answers_singleton ..).2 hend⟩⟩
      have length : (Forest.element tag inside .empty).events.length = inside.events.length + 2 := by
        simp [Forest.events]
      have cut : start + 1 + (inside.events ++ Event.endTag tag.name :: later).length =
          start + inside.events.length + 2 + later.length := by
        rw [List.length_append, List.length_cons]; omega
      rw [cut, Forest.closedFrom_element, Forest.openFrom_element, Forest.closedFrom_behind (by omega),
        Forest.openFrom_behind (by omega), List.nil_append, items_searching _ start above h whole]
      obtain ⟨m, n', hm, hs⟩ := items_cut behind (start + inside.events.length + 2) above below h hb ha
      refine ⟨m, n', ?_, hs⟩
      rw [hm, List.map_append, List.append_assoc]

end Extraction

namespace Selector

open EventStream Extraction

/-- Extraction over the front part `seen` of a forest answers the fragments of the elements it
would capture in the whole forest, as far as they are closed, and then what the source ends in: its
failure, or nothing if no element is open, or else one failure that says what the open elements are.
Behind these no call answers anything. -/
theorem extract_front {σ : Type} [EventStream σ] (selector : Selector) (forest : Forest)
    {seen rest : List Event} (h : forest.events = seen ++ rest) {source s : σ}
    (ha : Answers source seen s) :
    let x := begin selector .none source
    let fragments : List (Except Failure Fragment) :=
      ((forest.captured selector.chain).filter (·.ClosedBy seen.length)).map fun e => .ok e.fragment
    let opened := forest.elements.filter (·.OpenAt seen.length)
    selector.extract .none (Feed.ofEvents forest.events) =
        (forest.captured selector.chain).map (fun e => .ok e.fragment) ∧
      (∀ failure behind, EventStream.next s = (.error failure, behind) →
        ∀ k, (x.reply k).item = (fragments ++ [.error failure])[k]?) ∧
      ∀ behind, EventStream.next s = (.ok none, behind) →
        (opened = [] → ∀ k, (x.reply k).item = fragments[k]?) ∧
        (opened ≠ [] → ∃ message,
          (∀ other, selector.chain.Interrupted opened other ↔ other = message) ∧
          ∀ k, (x.reply k).item =
            (fragments ++ [.error (seenBy behind (.saying .inputCutShort message))])[k]?) := by
  intro x fragments opened
  have top : selector.chain.follow [] = some selector.chain := rfl
  obtain ⟨m, n, items, stands⟩ := items_cut (n := 0) forest 0 [] [] top h ha
  rw [Nat.zero_add] at items stands
  have run : x.items = fragments ++ Extraction.items ⟨s, m, .none, n, false⟩ := items
  refine ⟨items_forest selector forest, fun failure behind hf k => ?_, fun behind hend => ⟨?_, ?_⟩⟩
  · rw [item_reply, run, items_of_some (next_failure hf), items_finished rfl]
  · -- no element is open, so the matcher searches at the top of the document
    intro none k
    rcases stands with ⟨-, rfl⟩ | ⟨filled, -⟩
    · rw [item_reply, run, items_end hend rfl, List.append_nil]
    · exact absurd none filled
  · intro filled
    rcases stands with ⟨none, -⟩ | ⟨-, message, hm, hu⟩
    · exact absurd none filled
    · refine ⟨message, hu, fun k => ?_⟩
      rw [item_reply, run, items_of_some (next_cutShort hend hm), items_finished rfl]

/-- Cut inside what is skipped, behind one captured element and in front of another. -/
theorem extract_front_skipped :
    let selector : Selector := ⟨"/r/a", ⟨⟨some "r", none, false⟩, [⟨some "a", none, false⟩]⟩⟩
    let behind : Forest := .element ⟨"b", []⟩ (.element ⟨"a", []⟩ .empty .empty)
      (.element ⟨"a", []⟩ .empty .empty)
    let forest : Forest := .element ⟨"r", []⟩ (.element ⟨"a", []⟩ .empty behind) .empty
    let seen := forest.events.take 5
    let x := begin selector .none (Feed.ofEvents seen)
    forest.events = seen ++ forest.events.drop 5 ∧ (forest.captured selector.chain).length = 2 ∧
      (x.reply 0).item = some (.ok ⟨"<a></a>"⟩) ∧
      (x.reply 1).item =
        some (.error (.saying .inputCutShort "input ended inside a skipped element")) ∧
      (x.reply 2).item = none := by
  intro selector behind forest seen x
  have parted : forest.events = seen ++ forest.events.drop 5 := rfl
  obtain ⟨-, -, ended⟩ := extract_front selector forest parted (Feed.answers_ofEvents seen)
  obtain ⟨-, interrupted⟩ := ended (Feed.ofEvents []) rfl
  obtain ⟨message, hm, replies⟩ := interrupted (by decide)
  -- the element that is skipped is the second of the three that are open
  have skipped : selector.chain.Interrupted (forest.elements.filter (·.OpenAt seen.length))
      "input ended inside a skipped element" :=
    .skipped (e := ⟨3, [⟨"r", []⟩], ⟨"b", []⟩, .element ⟨"a", []⟩ .empty .empty⟩)
      (by decide) (by decide)
  obtain rfl := (hm _).1 skipped
  have fragments : (forest.captured selector.chain).filter (·.ClosedBy seen.length) =
      [⟨1, [⟨"r", []⟩], ⟨"a", []⟩, .empty⟩] := by decide
  rw [fragments] at replies
  exact ⟨parted, by decide, replies 0, replies 1, replies 2⟩

end Selector

end SubtreeHarvest

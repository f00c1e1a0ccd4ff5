/-
The frames of an extraction in every state that calls lead to, whatever the source answers. As long
as the extraction is not over, the chain of the selector lies at the bottom, and above each chain
lies the same one, if its first step may match at any depth, or the steps behind its first one; so
no chain has more steps than one below it. There are never more frames than the limit on depth
allows, and behind a fragment there is one for each element that is open in the source. The counter
of fragments counts the fragments answered, and behind a failure or the end nothing changes.

What one event does to the frames is said once; the frames keep their order along the course of the
extraction, and a state between calls is one on that course.
-/
import SubtreeHarvest.Proofs.Extract.Limits
import SubtreeHarvest.Proofs.Extract.Nested

namespace SubtreeHarvest

namespace Chain

/-- What may be in effect inside an element where `outer` is: the same chain, if its first step may
match at any depth, or the steps behind its first one. -/
def Inward (outer inner : Chain) : Prop :=
  (inner = outer ∧ outer.first.recursive = true) ∨ inner.steps = outer.later

instance (outer inner : Chain) : Decidable (outer.Inward inner) :=
  inferInstanceAs (Decidable (_ ∨ _))

variable {outer inner : Chain}

theorem inward_of_offer {tag : Tag} (h : outer.offer tag = .descend inner) : outer.Inward inner := by
  unfold offer at h
  split at h
  · split at h
    · cases h
    · rename_i hl
      cases h
      exact .inr hl.symm
  · split at h
    · rename_i hr
      cases h
      exact .inl ⟨rfl, hr⟩
    · cases h

theorem Inward.suffix (h : outer.Inward inner) : inner.steps <:+ outer.steps := by
  rcases h with ⟨rfl, -⟩ | h
  · exact List.suffix_refl _
  · exact ⟨[outer.first], by rw [h]; rfl⟩

end Chain

/-! ## Frames -/

/-- The frames of a matcher, innermost first, as far as they are always the same. -/
structure Stacked (root : Chain) (limits : Limits) (frames : List Chain) : Prop where
  bottom : frames.getLast? = some root
  linked : frames.IsChain fun inner outer => outer.Inward inner
  shallow : 0 < limits.maxDepth → frames.length ≤ limits.maxDepth + 1

namespace Stacked

variable {root chain next : Chain} {limits : Limits} {frames below : List Chain}

theorem ne_nil (h : Stacked root limits frames) : frames ≠ [] := by
  rintro rfl
  cases h.bottom

theorem push (h : Stacked root limits (chain :: below)) (hi : chain.Inward next)
    (hd : limits.maxDepth = 0 ∨ below.length < limits.maxDepth) :
    Stacked root limits (next :: chain :: below) where
  bottom := h.bottom
  linked := List.isChain_cons_cons.2 ⟨hi, h.linked⟩
  shallow hp := by simp only [List.length_cons]; omega

theorem pop (h : Stacked root limits (next :: chain :: below)) :
    Stacked root limits (chain :: below) where
  bottom := h.bottom
  linked := (List.isChain_cons_cons.1 h.linked).2
  shallow hp := Nat.le_of_succ_le (h.shallow hp)

/-- Frames do not get longer on the way up. -/
theorem pairwise_suffix (h : Stacked root limits frames) :
    frames.Pairwise fun inner outer => inner.steps <:+ outer.steps := by
  let shorter (inner outer : Chain) : Prop := inner.steps <:+ outer.steps
  have transitive : Trans shorter shorter shorter := ⟨List.IsSuffix.trans⟩
  have linked : frames.IsChain shorter := h.linked.imp fun _ _ hi => hi.suffix
  exact List.isChain_iff_pairwise.1 linked

/-- With one frame only it is that of the whole selector. -/
theorem eq_singleton (h : Stacked root limits frames) (hl : frames.length ≤ 1) : frames = [root] := by
  match frames, h with
  | [], h => exact absurd rfl h.ne_nil
  | [chain], h => exact congrArg (fun c => [c]) (Option.some.inj h.bottom)
  | _ :: _ :: _, _ => simp at hl

end Stacked

namespace Matcher

variable {root : Chain} {limits : Limits} {m m₁ : Matcher} {event : Event}

theorem stacked_of_goesOn (hm : Stacked root limits m.frames)
    (h : m.consume limits event = .goesOn m₁) : Stacked root limits m₁.frames := by
  have rule : Consumes limits m event (.goesOn m₁) := h ▸ consumes m event
  cases rule with
  | descends ho hd => exact hm.push (Chain.inward_of_offer ho) hd
  | comesUp => exact hm.pop
  | captures | skips | passesText | passesCdata | passesOver | skipped | writes => exact hm

theorem frames_of_fragment {fragment : Fragment} (h : m.consume limits event = .fragment fragment m₁) :
    m₁.frames = m.frames := by
  have rule : Consumes limits m event (.fragment fragment m₁) := h ▸ consumes m event
  cases rule with
  | closes => rfl

theorem frames_of_leaves (h : m.consume limits event = .leaves m₁) : m₁.frames = [] := by
  have rule : Consumes limits m event (.leaves m₁) := h ▸ consumes m event
  cases rule <;> rfl

end Matcher

namespace Extraction

open EventStream Event

variable {σ : Type} [EventStream σ] {x y z : Extraction σ} {root : Chain}

theorem Leads.stacked (hx : Stacked root x.limits x.matcher.frames) (h : x.Leads y) :
    Stacked root y.limits y.matcher.frames := by
  cases h with
  | goesOn _ hc => exact Matcher.stacked_of_goesOn hx hc
  | fragment _ hc => exact Matcher.frames_of_fragment hc ▸ hx

theorem Passes.stacked (hx : Stacked root x.limits x.matcher.frames) (h : x.Passes z) :
    Stacked root z.limits z.matcher.frames := by
  induction h with
  | refl => exact hx
  | tail _ h ih => exact h.stacked ih

/-- On its course an extraction keeps the frames in order. -/
theorem stacked_of_passes {selector : Selector} {limits : Limits} {source : σ}
    (h : (begin selector limits source).Passes z) :
    Stacked selector.chain limits z.matcher.frames := by
  let x := begin selector limits source
  have start : Stacked selector.chain x.limits x.matcher.frames :=
    ⟨rfl, .singleton _, fun _ => Nat.le_add_left 1 _⟩
  have kept := Passes.stacked start h
  rwa [show z.limits = limits from h.limits_eq] at kept

/-! ## States between calls -/

/-- The state that decides an item leads to no more frames. -/
theorem Decides.depth_le {item : Option (Except Failure Fragment)} (h : z.Decides (item, y)) :
    y.depth ≤ z.depth := by
  cases h with
  | fragment _ hc => exact Nat.le_of_eq (congrArg (·.length - 1) (Matcher.frames_of_fragment hc))
  | leaves _ hc =>
    rw [depth, Matcher.depth, Matcher.frames_of_leaves hc]
    exact Nat.zero_le _
  | failure | ended | cutShort | exceeds => exact Nat.le_refl _

/-- Between calls an extraction that is not over is in a state on its course; one that is over has
come from such a state. -/
theorem exists_passes_after (k : Nat) (hx : x.finished = false) :
    ∃ z, x.Passes z ∧ (x.after k).depth ≤ z.depth ∧
      ((x.after k).finished = false → x.after k = z) := by
  induction k generalizing x with
  | zero => exact ⟨x, .refl, Nat.le_refl _, fun _ => rfl⟩
  | succ k ih =>
    obtain ⟨s, m, limits, n, finished⟩ := x
    cases hx
    obtain ⟨z, hz, decides⟩ := exists_decides s m limits n
    rw [after]
    rcases called : next ⟨s, m, limits, n, false⟩ with ⟨item, y⟩
    rw [called] at decides
    by_cases hy : y.finished = true
    · rw [after_finished hy]
      exact ⟨z, hz, decides.depth_le, fun h => absurd hy (Bool.eq_false_iff.1 h)⟩
    · cases decides with
      | fragment hn hc =>
        obtain ⟨w, hw, on⟩ := ih (Bool.eq_false_iff.2 hy)
        exact ⟨w, hz.trans (.head (.fragment hn hc) hw), on⟩
      | failure | ended | cutShort | leaves | exceeds => exact absurd rfl hy

/-- A call that answers an item is decided on the course of the extraction. -/
theorem exists_decides_of_reply {k : Nat} {item : Except Failure Fragment} (hx : x.finished = false)
    (h : (x.reply k).item = some item) :
    ∃ z, x.Passes z ∧ z.Decides (some item, x.after (k + 1)) := by
  obtain ⟨y, hy, -, on⟩ := exists_passes_after k hx
  have answers : (x.after k).next = (some item, x.after (k + 1)) := by
    rw [after_succ]
    exact Prod.ext h rfl
  have unfinished : (x.after k).finished = false := by
    refine Bool.eq_false_iff.2 fun finished => ?_
    rw [next_finished finished] at answers
    cases answers
  rw [on unfinished] at answers unfinished
  obtain ⟨s, m, limits, n, finished⟩ := y
  cases unfinished
  obtain ⟨z, hz, decides⟩ := exists_decides s m limits n
  exact ⟨z, hy.trans hz, answers ▸ decides⟩

/-- Behind a fragment the frames count the elements that the source has started and not ended. -/
theorem Decides.depthBehind {fragment : Fragment} (hx : x.matcher.frames ≠ [])
    (ho : x.matcher.opened = 0) (hz : x.Passes z) (h : z.Decides (some (.ok fragment), y)) :
    ∃ events, Answers x.source events y.source ∧ Event.depthBehind 0 events = some y.depth := by
  cases h with
  | fragment hn hc =>
    obtain ⟨events, counts⟩ := Passes.counts hx (hz.tail (.fragment hn hc))
    have searching := (Matcher.consume_eq_fragment hc).1
    refine ⟨events, counts.answered, ?_⟩
    have opened := counts.opened
    rw [ho] at opened
    rw [opened, Matcher.opened]
    simp only [searching]
    rfl

/-! ## Counting fragments -/

theorem emitted_pull (x : Extraction σ) :
    x.pull.2.emitted = x.emitted + (fragmentsOf x.pull.1.toList).length := by
  fun_induction pull x with
  | case4 x event source hn matcher hc ih => exact ih
  | case1 | case2 | case3 | case5 | case6 | case7 => rfl

theorem emitted_next (x : Extraction σ) :
    x.next.2.emitted = x.emitted + (fragmentsOf x.next.1.toList).length := by
  unfold next
  split
  · rfl
  · exact emitted_pull x

theorem emitted_after : ∀ (x : Extraction σ) (k : Nat),
    (x.after k).emitted = x.emitted + (fragmentsOf (x.answered k)).length
  | _, 0 => rfl
  | x, k + 1 => by
    rw [after, emitted_after x.next.2 k, emitted_next, answered_succ, fragmentsOf_append,
      List.length_append, Nat.add_assoc]

end Extraction

namespace Selector

open EventStream Event Extraction

/-- What holds of an extraction between any two calls. As long as it is not over, the chain of the
selector is the frame at the bottom, each frame above is the one below, which is then recursive, or
what its first step leads to, and none has more steps than one below. There are never more elements
descended into than the limit. Behind a fragment they are the elements that the source has started
and not ended, and the fragments are counted. At most one call answers a failure, and behind a call
that answers no fragment nothing changes any more, the source included. -/
theorem extract_stacked {σ : Type} [EventStream σ] (selector : Selector) (limits : Limits)
    (source : σ) :
    let x := begin selector limits source
    (∀ k, (x.after k).finished = false →
      (x.after k).matcher.frames.getLast? = some selector.chain ∧
      (x.after k).matcher.frames.IsChain (fun inner outer => outer.Inward inner) ∧
      (x.after k).matcher.frames.Pairwise fun inner outer => inner.steps <:+ outer.steps) ∧
    (∀ k, 0 < limits.maxDepth → (x.after k).depth ≤ limits.maxDepth) ∧
    (∀ k fragment, (x.reply k).item = some (.ok fragment) →
      ∃ events, Answers source events (x.after (k + 1)).source ∧
        depthBehind 0 events = some (x.after (k + 1)).depth) ∧
    (∀ k, (x.after k).emitted = (fragmentsOf (x.answered k)).length) ∧
    (∀ i j failure other, (x.reply i).item = some (.error failure) →
      (x.reply j).item = some (.error other) → i = j) ∧
    ∀ k, (∀ fragment, (x.reply k).item ≠ some (.ok fragment)) →
      ∀ j > k, (x.reply j).item = none ∧ x.after j = x.after (k + 1) := by
  intro x
  have last : ∀ k, (∀ fragment, (x.reply k).item ≠ some (.ok fragment)) →
      ∀ j > k, (x.reply j).item = none ∧ x.after j = x.after (k + 1) := by
    intro k h j hj
    obtain ⟨i, rfl⟩ := Nat.exists_eq_add_of_lt hj
    have behind := finished_of_reply h
    rw [Nat.add_right_comm]
    exact ⟨by rw [reply_add, reply_finished behind], by rw [after_add, after_finished behind]⟩
  have failed : ∀ i j failure other, i < j → (x.reply i).item = some (.error failure) →
      (x.reply j).item ≠ some (.error other) := by
    intro i j failure other hj hi
    rw [(last i (fun fragment h => nomatch hi.symm.trans h) j hj).1]
    nofun
  refine ⟨fun k hk => ?_, fun k hd => ?_, fun k fragment h => ?_, fun k => ?_,
    fun i j failure other hi hj => ?_, last⟩
  · obtain ⟨z, hz, -, on⟩ := exists_passes_after (x := x) k rfl
    have stacked := stacked_of_passes hz
    rw [on hk]
    exact ⟨stacked.bottom, stacked.linked, stacked.pairwise_suffix⟩
  · obtain ⟨z, hz, le, -⟩ := exists_passes_after (x := x) k rfl
    have shallow := (stacked_of_passes hz).shallow hd
    exact Nat.le_trans le (Nat.sub_le_of_le_add shallow)
  · obtain ⟨z, hz, decides⟩ := exists_decides_of_reply (x := x) rfl h
    exact decides.depthBehind (List.cons_ne_nil _ _) rfl hz
  · rw [emitted_after]
    exact Nat.zero_add _
  · rcases Nat.lt_trichotomy i j with lt | eq | gt
    · exact absurd hj (failed i j failure other lt hi)
    · exact eq
    · exact absurd hi (failed j i other failure gt hj)

/-- One fragment inside one element, and then an element more than may be descended into. -/
theorem extract_stacked_tooDeep :
    let chain : Chain := ⟨⟨some "b", none, true⟩, []⟩
    let source := Feed.ofEvents [.startTag ⟨"a", []⟩, .startTag ⟨"b", []⟩, .endTag "b",
      .startTag ⟨"c", []⟩, .startTag ⟨"d", []⟩]
    let x := begin ⟨"//b", chain⟩ ⟨2, 0⟩ source
    ((x.after 1).finished = false ∧ (x.after 1).matcher.frames = [chain, chain] ∧
      chain.Inward chain) ∧
    ((x.reply 0).item = some (.ok ⟨"<b></b>"⟩) ∧
      ∃ events, Answers source events (x.after 1).source ∧ depthBehind 0 events = some 1) ∧
    ((x.reply 1).item = some (.error (.ofKind (.depthExceeded 2))) ∧ (x.after 2).depth ≤ 2 ∧
      (x.after 2).emitted = (fragmentsOf (x.answered 2)).length ∧
      ∀ j other, (x.reply j).item = some (.error other) → 1 = j) ∧
    (x.reply 2).item = none ∧ x.after 3 = x.after 2 := by
  intro chain source x
  obtain ⟨frames, shallow, counted, emitted, once, last⟩ := extract_stacked ⟨"//b", chain⟩ ⟨2, 0⟩ source
  let inside : Extraction Feed := ⟨Feed.ofEvents [.startTag ⟨"c", []⟩, .startTag ⟨"d", []⟩],
    ⟨[chain, chain], .searching⟩, ⟨2, 0⟩, 1, false⟩
  have captures : chain.offer ⟨"b", []⟩ = .capture := by decide
  have descends : ∀ name ∈ ["a", "c", "d"], chain.offer ⟨name, []⟩ = .descend chain := by decide
  have first : x.next = (some (.ok ⟨"<b></b>"⟩), inside) := by
    refine (next_goesOn rfl (Matcher.consume_descend (descends "a" (by decide)) (.inr (by decide)))).trans ?_
    exact (next_goesOn rfl (Matcher.consume_capture captures)).trans (next_fragment rfl rfl)
  have second : inside.next = (some (.error (.ofKind (.depthExceeded 2))),
      ⟨Feed.ofEvents [], ⟨[chain, chain, chain], .searching⟩, ⟨2, 0⟩, 1, true⟩) := by
    refine (next_goesOn rfl (Matcher.consume_descend (descends "c" (by decide)) (.inr (by decide)))).trans ?_
    exact next_exceeds rfl
      (Matcher.consume_tooDeep (descends "d" (by decide)) (by decide) (by decide))
  have one : x.after 1 = inside := congrArg Prod.snd first
  have fragment : (x.reply 0).item = some (.ok ⟨"<b></b>"⟩) := congrArg Prod.fst first
  have failure : (x.reply 1).item = some (.error (.ofKind (.depthExceeded 2))) := by
    rw [show (x.reply 1).item = (x.after 1).next.1 from rfl, one, second]
  have still := last 1 fun fragment h => nomatch failure.symm.trans h
  have linked := (frames 1 (by rw [one])).2.1
  have opened := counted 0 _ fragment
  rw [one] at linked opened
  refine ⟨⟨by rw [one], by rw [one], (List.isChain_cons_cons.1 linked).1⟩, ⟨fragment, ?_⟩,
    ⟨failure, shallow 2 (by decide), emitted 2, fun j other hj => once 1 j _ _ failure hj⟩,
    (still 2 (by decide)).1, (still 3 (by decide)).2⟩
  rw [one]
  exact opened

end Selector

end SubtreeHarvest

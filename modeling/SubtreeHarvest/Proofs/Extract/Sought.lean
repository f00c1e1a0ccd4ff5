/-
What an extraction does not look at. The elements that the matcher skips, with all they hold, and
the contents outside captured elements can be taken out of a document: under whatever limits, every
call replies as before, with the same counters. So neither how much is skipped nor what stands in
it can change a fragment or go past a limit.

The proof sets two feeds side by side that begin with the same events or differ in what is skipped
only. What is alike behind an event is alike in front of it, since the matcher does the same in
both; so the recursion over the forest has what comes behind it as a parameter.
-/
import SubtreeHarvest.Proofs.Extract.Captured
import SubtreeHarvest.Proofs.Extract.Limits

namespace SubtreeHarvest

/-- The forest without the elements that the chain skips, and without the contents outside the
elements that it captures. -/
def Forest.sought (chain : Chain) : Forest → Forest
  | .empty => .empty
  | .text _ behind => behind.sought chain
  | .cdata _ behind => behind.sought chain
  | .element tag inside behind =>
    match chain.offer tag with
    | .capture => .element tag inside (behind.sought chain)
    | .descend inner => .element tag (inside.sought inner) (behind.sought chain)
    | .skip => behind.sought chain

namespace Extraction

open Event Matcher

/-- From a matcher on, all calls reply the same over either feed, however many fragments were
answered before. -/
def Alike (limits : Limits) (m : Matcher) (s s' : Feed) : Prop :=
  ∀ n k, reply ⟨s, m, limits, n, false⟩ k = reply ⟨s', m, limits, n, false⟩ k

variable {limits : Limits} {m : Matcher} {event : Event} {rest rest' : List Event}
  {failure : Option Failure} {frames : List Chain} {chain : Chain} {below : List Chain}

/-- The same event in front of both feeds: if the run goes on behind it, it goes on alike. -/
theorem Alike.cons
    (goesOn : ∀ m₁, m.consume limits event = .goesOn m₁ →
      Alike limits m₁ ⟨rest, failure⟩ ⟨rest', failure⟩)
    (fragment : ∀ made m₁, m.consume limits event = .fragment made m₁ →
      Alike limits m₁ ⟨rest, failure⟩ ⟨rest', failure⟩) :
    Alike limits m ⟨event :: rest, failure⟩ ⟨event :: rest', failure⟩ := by
  intro n k
  have pulled (rest : List Event) : EventStream.next (⟨event :: rest, failure⟩ : Feed) =
      (.ok (some event), ⟨rest, failure⟩) := rfl
  cases hc : m.consume limits event with
  | goesOn m₁ =>
    rw [reply_congr (next_goesOn (pulled rest) hc) k, reply_congr (next_goesOn (pulled rest') hc) k]
    exact goesOn m₁ hc n k
  | fragment made m₁ =>
    cases k with
    | zero =>
      rw [reply_zero (next_fragment (pulled rest) hc), reply_zero (next_fragment (pulled rest') hc)]
      rfl
    | succ k =>
      rw [reply_succ, reply_succ, next_fragment (pulled rest) hc, next_fragment (pulled rest') hc]
      exact fragment made m₁ hc (n + 1) k
  | leaves m₁ =>
    rw [reply_last (next_leaves (pulled rest) hc) rfl, reply_last (next_leaves (pulled rest') hc) rfl]
    rfl
  | exceeds kind =>
    rw [reply_last (next_exceeds (pulled rest) hc) rfl, reply_last (next_exceeds (pulled rest') hc) rfl]
    rfl

/-- In a captured element the feeds have the same events, up to the end tag that closes it. -/
theorem Alike.captured {name : String}
    (h : Alike limits ⟨frames, .searching⟩ ⟨rest, failure⟩ ⟨rest', failure⟩) :
    ∀ {inside : List Event} {depth : Nat} {written : String}, depthBehind depth inside = some 0 →
      Alike limits ⟨frames, .capturing depth written⟩ ⟨inside ++ .endTag name :: rest, failure⟩
        ⟨inside ++ .endTag name :: rest', failure⟩
  | [], depth, written, hd => by
    cases hd
    refine Alike.cons (fun m₁ hc => ?_) (fun made m₁ hc => ?_)
    · cases hc
    · cases hc
      exact h
  | event :: inside, depth, written, hd => by
    obtain ⟨d, opened, hd⟩ := depthBehind_cons hd
    refine Alike.cons (fun m₁ hc => ?_) (fun made m₁ hc => ?_)
    · -- whatever the event is, it is written, and the captured element is still open
      have rule : Consumes limits ⟨frames, .capturing depth written⟩ event (.goesOn m₁) :=
        hc ▸ consumes _ _
      cases rule with
      | writes hd' _ =>
        cases opened.symm.trans hd'
        exact Alike.captured h hd
    · have rule : Consumes limits ⟨frames, .capturing depth written⟩ event (.fragment made m₁) :=
        hc ▸ consumes _ _
      cases rule with
      | closes => cases opened

/-- What is skipped in front of the first feed only makes no difference. -/
theorem Alike.skipped {tag : Tag} {inside : Forest} {s' : Feed} (ho : chain.offer tag = .skip)
    (h : Alike limits ⟨chain :: below, .searching⟩ ⟨rest, failure⟩ s') :
    Alike limits ⟨chain :: below, .searching⟩
      ⟨.startTag tag :: (inside.events ++ .endTag tag.name :: rest), failure⟩ s' := by
  intro n k
  have answers := Feed.answers failure (.startTag tag :: (inside.events ++ [.endTag tag.name])) rest
  rw [List.cons_append, List.append_assoc, List.singleton_append] at answers
  rw [reply_congr (next_of_skip ho answers (depthBehind_forest 0 inside)) k]
  exact h n k

/-- What is alike behind a forest and behind what is sought of it is alike in front of them. -/
theorem Alike.sought : ∀ (forest : Forest) {chain : Chain} {below : List Chain} {rest rest' : List Event},
    Alike limits ⟨chain :: below, .searching⟩ ⟨rest, failure⟩ ⟨rest', failure⟩ →
      Alike limits ⟨chain :: below, .searching⟩ ⟨forest.events ++ rest, failure⟩
        ⟨(forest.sought chain).events ++ rest', failure⟩
  | .empty, _, _, _, _, h => h
  | .text _ behind, _, _, _, _, h => fun n k =>
    (reply_congr (next_goesOn rfl rfl) k).trans (Alike.sought behind h n k)
  | .cdata _ behind, _, _, _, _, h => fun n k =>
    (reply_congr (next_goesOn rfl rfl) k).trans (Alike.sought behind h n k)
  | .element tag inside behind, chain, below, rest, rest', h => by
    have later := Alike.sought behind h
    have parted (inside behind : Forest) (rest : List Event) :
        (Forest.element tag inside behind).events ++ rest =
          .startTag tag :: (inside.events ++ .endTag tag.name :: (behind.events ++ rest)) := by
      simp [Forest.events]
    rw [parted, Forest.sought]
    cases ho : chain.offer tag with
    | capture =>
      rw [parted]
      refine Alike.cons (fun m₁ hc => ?_) (fun made m₁ hc => ?_)
      · cases (consume_capture ho).symm.trans hc
        exact later.captured (depthBehind_forest 0 inside)
      · cases (consume_capture ho).symm.trans hc
    | skip => exact later.skipped ho
    | descend inner =>
      rw [parted]
      -- the end tag of the element takes off the frame that its start tag has put on top
      have closed : Alike limits ⟨inner :: chain :: below, .searching⟩
          ⟨.endTag tag.name :: (behind.events ++ rest), failure⟩
          ⟨.endTag tag.name :: ((behind.sought chain).events ++ rest'), failure⟩ := by
        refine Alike.cons (fun m₁ hc => ?_) (fun made m₁ hc => ?_)
        · cases consume_leave.symm.trans hc
          exact later
        · cases consume_leave.symm.trans hc
      refine Alike.cons (fun m₁ hc => ?_) (fun made m₁ hc => ?_)
      · have rule : Consumes limits ⟨chain :: below, .searching⟩ (.startTag tag) (.goesOn m₁) :=
          hc ▸ consumes _ _
        cases rule with
        | captures ho' => cases ho.symm.trans ho'
        | skips ho' => cases ho.symm.trans ho'
        | descends ho' _ =>
          cases ho.symm.trans ho'
          exact Alike.sought inside closed
      · obtain ⟨-, written, name, hw, -⟩ := consume_eq_fragment hc
        cases hw

end Extraction

namespace Selector

open Extraction

/-- Taking out of a forest what the selector skips, and the contents outside what it captures,
changes no reply to any call, under whatever limits. So two forests of which the same is sought
are answered alike. -/
theorem reply_sought (selector : Selector) (limits : Limits) (forest : Forest) :
    let run (forest : Forest) := begin selector limits (Feed.ofEvents forest.events)
    (∀ k, (run forest).reply k = (run (forest.sought selector.chain)).reply k) ∧
      ∀ other : Forest, other.sought selector.chain = forest.sought selector.chain →
        ∀ k, (run other).reply k = (run forest).reply k := by
  intro run
  have whole (forest : Forest) (k : Nat) :
      (run forest).reply k = (run (forest.sought selector.chain)).reply k := by
    have ended : Alike limits ⟨[selector.chain], .searching⟩ ⟨[], none⟩ ⟨[], none⟩ := fun _ _ => rfl
    have alike := Alike.sought forest ended 0 k
    rwa [List.append_nil, List.append_nil] at alike
  refine ⟨whole forest, fun other same k => ?_⟩
  rw [whole other, same, whole forest]

/-- A limit of one open element is not gone past by three skipped ones in each other, nor a limit of
nine bytes by what they hold. -/
theorem reply_sought_nested :
    let selector : Selector := ⟨"/r/a", ⟨⟨some "r", none, false⟩, [⟨some "a", none, false⟩]⟩⟩
    let skipped : Forest := .element ⟨"b", []⟩ (.element ⟨"a", []⟩ (.element ⟨"a", []⟩
      (.cdata "0123456789" .empty) .empty) .empty) (.text "0123456789" .empty)
    let captured (behind : Forest) : Forest := .element ⟨"a", []⟩ (.text "x" .empty) behind
    let forest : Forest := .element ⟨"r", []⟩ (captured skipped) .empty
    let other : Forest := .element ⟨"r", []⟩ (captured .empty) .empty
    let run (forest : Forest) := begin selector ⟨1, 9⟩ (Feed.ofEvents forest.events)
    other.sought selector.chain = forest.sought selector.chain ∧
      forest.sought selector.chain = other ∧ ∀ k, (run other).reply k = (run forest).reply k := by
  intro selector skipped captured forest other run
  have same : other.sought selector.chain = forest.sought selector.chain := by decide
  exact ⟨same, by decide, (reply_sought selector ⟨1, 9⟩ forest).2 other same⟩

end Selector

end SubtreeHarvest

/-
Where the failures of an extraction come to light. The source sets the place of a malformed document,
the extraction that of an input cut short and of a limit exceeded; over a document it is in either case
the byte that the cursor has come to, and with an input cut short that is the last one. What the
extraction does depends on the events alone: over sources that answer the same events and end, or fail,
alike the replies are the same but for the places of failures, and ready-made events have no places.
-/
import SubtreeHarvest.Proofs.Extract.Frames
import SubtreeHarvest.Proofs.Extract.Limits
import SubtreeHarvest.Proofs.Markup.Progress

namespace SubtreeHarvest

open EventStream Markup

/-- The reply without the place of its failure. -/
def Reply.unplaced (reply : Reply) : Reply :=
  { reply with item := reply.item.map (Except.mapError Failure.unplaced) }

/-- Without a place there is none to leave out. -/
theorem Reply.unplaced_eq {reply : Reply}
    (h : ∀ failure, reply.item = some (.error failure) → failure.position = none) :
    reply.unplaced = reply := by
  obtain ⟨item, emitted, depth⟩ := reply
  rcases item with _ | ⟨kind, position, message⟩ | fragment
  · rfl
  · obtain rfl : position = none := h _ rfl
    rfl
  · rfl

namespace Feed

/-- A feed without a failure does not come to one. -/
theorem failure_next {s s₁ : Feed} {a : Except Failure (Option Event)} (hs : s.failure = none)
    (h : EventStream.next s = (a, s₁)) : s₁.failure = none ∧ ∀ failure, a ≠ .error failure := by
  obtain ⟨events, _⟩ := s
  cases hs
  cases events with
  | nil | cons =>
    cases h
    refine ⟨rfl, fun failure fails => ?_⟩
    cases fails

end Feed

namespace Extraction

variable {σ τ : Type} [EventStream σ] [EventStream τ]

/-! ## Agreeing sources -/

/-- The source bears on no more of a failure than its place. -/
theorem unplaced_seenBy (source : σ) (failure : Failure) :
    (seenBy source failure).unplaced = failure.unplaced := by
  rw [seenBy]
  split <;> rfl

/-- Extractions that finish with the same item, but for its place, reply alike from there on. -/
theorem unplaced_reply_of_last {x : Extraction σ} {y : Extraction τ} {s : σ} {t : τ} {m : Matcher}
    {limits : Limits} {n : Nat} {item other : Option (Except Failure Fragment)}
    (hx : x.next = (item, ⟨s, m, limits, n, true⟩)) (hy : y.next = (other, ⟨t, m, limits, n, true⟩))
    (same : item.map (Except.mapError Failure.unplaced) = other.map (Except.mapError Failure.unplaced)) :
    ∀ k, (x.reply k).unplaced = (y.reply k).unplaced
  | 0 => by
    rw [reply_zero hx, reply_zero hy, Reply.unplaced, same]
    rfl
  | k + 1 => by
    rw [reply_succ, reply_succ, hx, hy, reply_finished rfl, reply_finished rfl]
    rfl

theorem unplaced_reply_of_failure {x : Extraction σ} {y : Extraction τ} {s : σ} {t : τ} {m : Matcher}
    {limits : Limits} {n : Nat} {failure other : Failure}
    (hx : x.next = (some (.error failure), ⟨s, m, limits, n, true⟩))
    (hy : y.next = (some (.error other), ⟨t, m, limits, n, true⟩))
    (same : failure.unplaced = other.unplaced) (k : Nat) :
    (x.reply k).unplaced = (y.reply k).unplaced :=
  unplaced_reply_of_last hx hy (congrArg (fun f => some (Except.error f)) same) k

/-- Over agreeing sources extractions in the same state reply alike, but for the places of failures. -/
theorem unplaced_reply_of_agrees {s : σ} {t : τ} (h : Agrees s t) (m : Matcher) (limits : Limits)
    (n : Nat) (k : Nat) : (reply ⟨s, m, limits, n, false⟩ k).unplaced =
      (reply ⟨t, m, limits, n, false⟩ k).unplaced := by
  have seen (s : σ) (t : τ) (failure : Failure) :
      (seenBy s failure).unplaced = (seenBy t failure).unplaced :=
    (unplaced_seenBy s failure).trans (unplaced_seenBy t failure).symm
  induction h generalizing m n k with
  | @event s s₁ t t₁ event hs ht _ ih =>
    cases hc : m.consume limits event with
    | goesOn m₁ =>
      rw [reply_congr (next_goesOn hs hc), reply_congr (next_goesOn ht hc)]
      exact ih m₁ n k
    | fragment made m₁ =>
      have left := next_fragment (n := n) hs hc
      have right := next_fragment (n := n) ht hc
      cases k with
      | zero => rw [reply_zero left, reply_zero right]; rfl
      | succ k =>
        rw [reply_succ, reply_succ, left, right]
        exact ih m₁ (n + 1) k
    | leaves m₁ => exact unplaced_reply_of_last (next_leaves hs hc) (next_leaves ht hc) rfl k
    | exceeds kind =>
      exact unplaced_reply_of_failure (next_exceeds hs hc) (next_exceeds ht hc) (seen ..) k
  | ended hs ht =>
    rcases hm : m.truncation? with _ | message
    · exact unplaced_reply_of_last (next_end hs hm) (next_end ht hm) rfl k
    · exact unplaced_reply_of_failure (next_cutShort hs hm) (next_cutShort ht hm) (seen ..) k
  | failed hs ht same => exact unplaced_reply_of_failure (next_failure hs) (next_failure ht) same k

/-! ## Failures in a document -/

/-- On the course of an extraction no byte of the document is given up. -/
theorem Passes.onward {x z : Extraction Cursor} (h : x.Passes z) (hc : x.source.ending = .complete) :
    x.source.Onward z.source := by
  induction h with
  | refl => exact .refl hc
  | tail _ h ih =>
    cases h with
    | goesOn hn | fragment hn => exact ih.trans (Cursor.onward_of_event ih.complete hn)

/-- The item is decided by one pull. -/
theorem Decides.source_eq {z y : Extraction σ} {item : Option (Except Failure Fragment)}
    (h : z.Decides (item, y)) : y.source = (EventStream.next z.source).2 := by
  cases h with
  | failure hn | ended hn | cutShort hn | fragment hn | leaves hn | exceeds hn =>
    exact (congrArg Prod.snd hn).symm

/-- A failure is at the byte that the cursor has come to, whichever layer it is of, and one of an
input cut short is behind the last byte. -/
theorem Decides.placed {z y : Extraction Cursor} {failure : Failure}
    (h : z.Decides (some (.error failure), y)) (hc : z.source.ending = .complete) :
    failure.position = some y.source.position ∧
    (failure.kind = .inputCutShort → y.source.position = z.source.extent) ∧
    failure.kind ∈ [.malformedMarkup, .inputCutShort, .depthExceeded z.limits.maxDepth,
      .sizeExceeded z.limits.maxSize] := by
  cases h with
  | failure hn =>
    rcases Cursor.moves_next hc with ⟨name, -, hq⟩ | ⟨-, moves⟩
    · cases hq.symm.trans hn
    · rw [hn] at moves
      cases moves with
      | failed _ _ kind place =>
        refine ⟨place, fun short => ?_, by simp [kind]⟩
        cases kind.symm.trans short
  | @cutShort _ s₁ _ _ _ message hn =>
    rcases Cursor.moves_next hc with ⟨name, -, hq⟩ | ⟨-, moves⟩
    · cases hq.symm.trans hn
    · rw [hn] at moves
      cases moves with
      | ended on _ hr =>
        have last : s₁.extent = s₁.position := by rw [Cursor.extent, hr]; rfl
        have kind : (seenBy s₁ (.saying .inputCutShort message)).kind = .inputCutShort := rfl
        exact ⟨rfl, fun _ => last.symm.trans on.lossless, by rw [kind]; simp⟩
  | @exceeds _ s₁ _ _ _ _ kind _ exceeds =>
    have seen : (seenBy s₁ (.ofKind kind)).kind = kind := rfl
    refine ⟨rfl, ?_⟩
    rw [seen]
    rcases Matcher.consume_eq_exceeds_iff.1 exceeds with _ | _ <;> simp

/-! ## Failures over ready-made events -/

/-- Ready-made events do not come to fail. -/
theorem Passes.failure_none {x z : Extraction Feed} (h : x.Passes z) (hx : x.source.failure = none) :
    z.source.failure = none := by
  induction h with
  | refl => exact hx
  | tail _ h ih =>
    cases h with
    | goesOn hn | fragment hn => exact (Feed.failure_next ih hn).1

theorem Decides.unplaced {z y : Extraction Feed} {failure : Failure}
    (h : z.Decides (some (.error failure), y)) (hz : z.source.failure = none) :
    failure.position = none := by
  cases h with
  | failure hn => exact absurd rfl ((Feed.failure_next hz hn).2 _)
  | cutShort | exceeds => rfl

end Extraction

namespace Selector

open Extraction

/-- Over a document every failure is at the byte that the cursor has come to behind the call, within
the document, and one of an input cut short is behind its last byte. Over ready-made events no failure
has a place; but for the places, every source that answers these events and then ends is replied to
alike, with the same counters. -/
theorem extract_placed (selector : Selector) (limits : Limits) :
    (∀ bytes, let x := begin selector limits (Cursor.ofBytes bytes)
      ∀ k failure, (x.reply k).item = some (.error failure) →
        failure.position = some (x.after (k + 1)).source.position ∧
        (x.after (k + 1)).source.position ≤ bytes.length ∧
        (failure.kind = .inputCutShort →
          failure.position = some (Cursor.withoutOrderMark bytes).length) ∧
        failure.kind ∈ [.malformedMarkup, .inputCutShort, .depthExceeded limits.maxDepth,
          .sizeExceeded limits.maxSize]) ∧
    ∀ events, let x := begin selector limits (Feed.ofEvents events)
      (∀ k failure, (x.reply k).item = some (.error failure) → failure.position = none) ∧
      ∀ {σ : Type} [EventStream σ] (source behind last : σ), Answers source events behind →
        EventStream.next behind = (.ok none, last) →
          ∀ k, ((begin selector limits source).reply k).unplaced = x.reply k := by
  constructor
  · intro bytes x k failure h
    obtain ⟨z, passes, decides⟩ := exists_decides_of_reply rfl h
    have onward : (Cursor.ofBytes bytes).Onward z.source := passes.onward rfl
    obtain ⟨place, short, kind⟩ := decides.placed onward.complete
    have whole : z.source.extent = (Cursor.withoutOrderMark bytes).length :=
      onward.lossless.trans (Nat.zero_add _)
    have behind : z.source.Past (x.after (k + 1)).source :=
      decides.source_eq ▸ Cursor.past_next onward.complete
    refine ⟨place, ?_, fun hk => ?_, ?_⟩
    · calc (x.after (k + 1)).source.position
        _ ≤ (x.after (k + 1)).source.extent := Nat.le_add_right ..
        _ ≤ z.source.extent := behind.extent
        _ = (Cursor.ofBytes bytes).extent := onward.lossless
        _ ≤ bytes.length := Cursor.extent_ofBytes bytes
    · rw [place, short hk, whole]
    · rwa [show z.limits = limits from passes.limits_eq] at kind
  · intro events x
    have places (k : Nat) (failure : Failure) (h : (x.reply k).item = some (.error failure)) :
        failure.position = none := by
      obtain ⟨z, passes, decides⟩ := exists_decides_of_reply rfl h
      exact decides.unplaced (passes.failure_none rfl)
    refine ⟨places, fun source behind last ha hl k => ?_⟩
    rw [← Reply.unplaced_eq (places k)]
    exact unplaced_reply_of_agrees (agrees_ofEvents ha hl) _ limits 0 k

/-- A document with an order mark that ends inside a captured element, four bytes behind the mark. -/
theorem extract_placed_cutShort :
    let selector : Selector := ⟨"/a", ⟨⟨some "a", none, false⟩, []⟩⟩
    let document := Cursor.ofBytes [0xEF, 0xBB, 0xBF, 0x3C, 0x61, 0x3E, 0x78]
    let events := [.startTag ⟨"a", []⟩, .text "x"]
    let message := "input ended inside a captured element"
    ((begin selector .none document).reply 0).item =
        some (.error ⟨.inputCutShort, some 4, message⟩) ∧
      ((begin selector .none document).after 1).source.position = 4 ∧
      ((begin selector .none (Feed.ofEvents events)).reply 0).item =
        some (.error ⟨.inputCutShort, none, message⟩) := by
  intro selector document events message
  obtain ⟨placed, ready⟩ := extract_placed selector .none
  -- the document answers the events and ends
  have tag : (⟨"a", []⟩ : Tag).Writable := by decide
  have started : Cursor.Reads [] [0x3C, 0x61, 0x3E, 0x78] [.startTag ⟨"a", []⟩] [[0x61]] [0x78] :=
    Cursor.reads_startTag tag
  have continued : Cursor.Reads [[0x61]] [0x78] [.text "x"] [[0x61]] [] :=
    @Cursor.reads_text _ [] ['x'] (by decide) nofun
  obtain ⟨p, answered⟩ := (started.append continued) 0
  have same := (ready events).2 document _ _ answered (Cursor.next_standing_nil p _) 0
  have captures : Matcher.consume .none (.ofSelector selector) (.startTag ⟨"a", []⟩) =
      .goesOn ⟨[selector.chain], .capturing 0 (Event.startTag ⟨"a", []⟩).written⟩ :=
    Matcher.consume_capture (by decide)
  have made : ((begin selector .none (Feed.ofEvents events)).reply 0).item =
      some (.error ⟨.inputCutShort, none, message⟩) := by
    have first := next_goesOn (s := Feed.ofEvents events) (n := 0) rfl captures
    exact congrArg Prod.fst (first.trans ((next_goesOn rfl rfl).trans (next_cutShort rfl rfl)))
  rw [← and_assoc]
  refine ⟨?_, made⟩
  have item : ((begin selector .none document).reply 0).item.map (Except.mapError Failure.unplaced) = _ :=
    (congrArg Reply.item same).trans made
  obtain ⟨answered, h, fails⟩ := Option.map_eq_some_iff.1 item
  rcases answered with failure | fragment
  case ok => cases fails
  injection fails with fails
  obtain ⟨place, -, short, -⟩ := placed _ 0 failure h
  obtain ⟨kind, position, text⟩ := failure
  simp only [Failure.unplaced, Failure.mk.injEq] at fails place short
  obtain ⟨rfl, -, rfl⟩ := fails
  obtain rfl : position = some 4 := short rfl
  exact ⟨h, (Option.some.inj place).symm⟩

end Selector

end SubtreeHarvest

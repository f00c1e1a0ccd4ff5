/-
What an extraction takes from its source. It takes nothing before it is asked, and behind a fragment
it has taken the events up to the end tag that closes the captured element and none behind it. So
whoever reads on from there meets the events behind that element; and where no element is descended
into, a new extraction for the same selector replies as the one before it would have gone on to. In
a document no end tag waits there, so this holds of empty elements as well.
-/
import SubtreeHarvest.Proofs.Extract.Frames
import SubtreeHarvest.Proofs.Extract.Size

namespace SubtreeHarvest

namespace Extraction

open EventStream Event

variable {σ : Type} [EventStream σ] {x y z : Extraction σ}

/-! ## Counting on -/

/-- The same extraction, with `more` fragments counted before. -/
def countingFrom (more : Nat) (x : Extraction σ) : Extraction σ :=
  { x with emitted := more + x.emitted }

/-- What has been counted does not bear on what is answered. -/
theorem next_countingFrom (more : Nat) (x : Extraction σ) :
    (x.countingFrom more).next = (x.next.1, x.next.2.countingFrom more) := by
  obtain ⟨s, m, limits, n, finished⟩ := x
  cases finished with
  | true => rw [next_finished rfl, next_finished rfl]
  | false =>
    -- every event leaves less of the source
    induction hk : EventStream.remaining s using Nat.strongRecOn generalizing s m n with
    | ind k ih =>
      rw [countingFrom]
      rcases hn : EventStream.next s with ⟨_ | _ | event, s₁⟩
      · rw [next_failure hn, next_failure hn]; rfl
      · rcases ht : m.truncation? with _ | message
        · rw [next_end hn ht, next_end hn ht]; rfl
        · rw [next_cutShort hn ht, next_cutShort hn ht]; rfl
      · cases hc : m.consume limits event with
        | goesOn m₁ =>
          rw [next_goesOn hn hc, next_goesOn hn hc]
          exact ih _ (hk ▸ EventStream.remaining_next hn) s₁ m₁ n rfl
        | fragment made m₁ => rw [next_fragment hn hc, next_fragment hn hc]; rfl
        | leaves m₁ => rw [next_leaves hn hc, next_leaves hn hc]; rfl
        | exceeds kind => rw [next_exceeds hn hc, next_exceeds hn hc]; rfl

theorem after_countingFrom (more : Nat) : ∀ (x : Extraction σ) (k : Nat),
    (x.countingFrom more).after k = (x.after k).countingFrom more
  | _, 0 => rfl
  | x, k + 1 => by
    rw [after, next_countingFrom, after_countingFrom more x.next.2 k, after]

theorem reply_countingFrom (more : Nat) (x : Extraction σ) (k : Nat) :
    (x.countingFrom more).reply k = { x.reply k with emitted := more + (x.reply k).emitted } := by
  rw [reply, reply, after_countingFrom, after_countingFrom, next_countingFrom]
  rfl

/-! ## Behind a fragment -/

/-- Behind a fragment the source has answered the captured element, and nothing more. -/
theorem Decides.exists_captures {fragment : Fragment} (hs : x.matcher.activity = .searching)
    (hz : x.Passes z) (h : z.Decides (some (.ok fragment), y)) :
    ∃ w c, x.Passes w ∧ w.Captures c ∧ c.fragment = fragment ∧ Answers w.source c.events y.source := by
  cases h with
  | fragment hn hc =>
    obtain ⟨w, c, hw, captures, -, made, answered⟩ := exists_captures_of_consume hs hz hn hc
    exact ⟨w, c, hw, captures, made, answered⟩

/-- Where no element is descended into behind a fragment, the extraction is as at its beginning, but
for what it has counted. -/
theorem Decides.eq_begin {selector : Selector} {limits : Limits} {source : σ} {fragment : Fragment}
    (hz : (begin selector limits source).Passes z) (h : z.Decides (some (.ok fragment), y))
    (hd : y.depth = 0) : y = (begin selector limits y.source).countingFrom y.emitted := by
  have hl := hz.limits_eq
  cases h with
  | @fragment s s₁ m m₁ limits n event fragment hn hc =>
    cases hl
    obtain ⟨frames, activity⟩ := m₁
    have stacked := stacked_of_passes (hz.tail (.fragment hn hc))
    cases stacked.eq_singleton (Nat.le_of_sub_eq_zero hd)
    cases (Matcher.consume_eq_fragment hc).1
    rfl

end Extraction

/-! ## Documents -/

/-- No end tag waits behind an element of a document that has been read to its end. -/
theorem Markup.Cursor.queuedEnd_of_answers {r behind : Cursor} {names : List String}
    {before : List Event} {c : Capture} (ho : r.Opens names) (hr : r.queuedEnd = none)
    (ha : EventStream.Answers r (before ++ c.events) behind) : behind.queuedEnd = none := by
  cases hq : behind.queuedEnd with
  | none => rfl
  | some name =>
    obtain ⟨earlier, tag, he, -⟩ := waits_of_answers ho hr ha hq
    -- only a start tag can be answered last in front of an end tag that waits
    rw [Capture.events, ← List.cons_append, ← List.append_assoc] at he
    cases List.append_inj_right' he rfl

namespace Selector

open EventStream Extraction Markup

/-- An extraction takes nothing from its source at its beginning, and behind each fragment it has
taken the events up to the end tag that closes the captured element, and no more: whatever is
answered there is what the source answers behind the element. If no element is descended into
there, a new extraction with the same limits replies call by call as the one before would have, but
for counting from zero. In a document no end tag waits behind a fragment, whatever its bytes are. -/
theorem extract_resumed (selector : Selector) (limits : Limits) :
    (∀ {σ : Type} [EventStream σ] (source : σ),
      let x := begin selector limits source
      x.source = source ∧
      ∀ k fragment, (x.reply k).item = some (.ok fragment) →
        let behind := (x.after (k + 1)).source
        (∃ w before c, x.Passes w ∧ Answers source before w.source ∧ w.Captures c ∧
          c.fragment = fragment ∧ Answers source (before ++ c.events) behind ∧
          ∀ events s, Answers behind events s ↔ Answers source (before ++ c.events ++ events) s) ∧
        ((x.after (k + 1)).depth = 0 → ∀ j, x.reply (k + 1 + j) =
          { (begin selector limits behind).reply j with
            emitted := (x.after (k + 1)).emitted + ((begin selector limits behind).reply j).emitted })) ∧
    ∀ (bytes : List UInt8) (ending : Ending),
      let x := begin selector limits { Cursor.ofBytes bytes with ending }
      ∀ k fragment, (x.reply k).item = some (.ok fragment) →
        (x.after (k + 1)).source.queuedEnd = none := by
  have taken : ∀ {σ : Type} [EventStream σ] (source : σ) (k : Nat) (fragment : Fragment),
      ((begin selector limits source).reply k).item = some (.ok fragment) →
      ∃ w before c, (begin selector limits source).Passes w ∧ Answers source before w.source ∧
        w.Captures c ∧ c.fragment = fragment ∧
        Answers source (before ++ c.events) ((begin selector limits source).after (k + 1)).source := by
    intro σ _ source k fragment h
    obtain ⟨z, hz, decides⟩ := exists_decides_of_reply rfl h
    obtain ⟨w, c, hw, captures, made, answered⟩ := decides.exists_captures rfl hz
    obtain ⟨before, counts⟩ := Passes.counts (List.cons_ne_nil _ _) hw
    exact ⟨w, before, c, hw, counts.answered, captures, made,
      (answers_append ..).2 ⟨w.source, counts.answered, answered⟩⟩
  refine ⟨fun source => ⟨rfl, fun k fragment h => ⟨?_, fun hd j => ?_⟩⟩, fun bytes ending k fragment h => ?_⟩
  · obtain ⟨w, before, c, hw, hb, captures, made, answered⟩ := taken source k fragment h
    refine ⟨w, before, c, hw, hb, captures, made, answered, fun events s => ?_⟩
    rw [answers_append]
    refine ⟨fun ha => ⟨_, answered, ha⟩, fun ⟨s₁, h₁, ha⟩ => ?_⟩
    rwa [answers_unique answered h₁]
  · obtain ⟨z, hz, decides⟩ := exists_decides_of_reply rfl h
    rw [reply_add, ← reply_countingFrom, ← decides.eq_begin hz hd]
  · obtain ⟨w, before, c, -, -, -, -, answered⟩ := taken _ k fragment h
    exact Cursor.queuedEnd_of_answers (Cursor.opens_ofBytes bytes ending) rfl answered

/-- Two empty elements in eight bytes, the first skipped and the second captured. -/
theorem extract_resumed_empty :
    let selector : Selector := ⟨"/a", ⟨⟨some "a", none, false⟩, []⟩⟩
    let document := Cursor.ofBytes [0x3C, 0x62, 0x2F, 0x3E, 0x3C, 0x61, 0x2F, 0x3E]
    let x := begin selector .none document
    let behind := (x.after 1).source
    (x.reply 0).item = some (.ok ⟨"<a></a>"⟩) ∧ (x.after 1).depth = 0 ∧ behind.queuedEnd = none ∧
      (∃ w before c, x.Passes w ∧ Answers document before w.source ∧ w.Captures c ∧
        c.fragment = ⟨"<a></a>"⟩ ∧ Answers document (before ++ c.events) behind ∧
        ∀ events s, Answers behind events s ↔ Answers document (before ++ c.events ++ events) s) ∧
      x.reply 1 = { (begin selector .none behind).reply 0 with
        emitted := (x.after 1).emitted + ((begin selector .none behind).reply 0).emitted } := by
  intro selector document x behind
  let bytes : List UInt8 := [0x3C, 0x62, 0x2F, 0x3E, 0x3C, 0x61, 0x2F, 0x3E]
  have tag : ∀ name ∈ ["a", "b"], (⟨name, []⟩ : Tag).Writable := by decide
  let atEnd : Cursor := ⟨[], .complete, 8, [], none⟩
  have first : EventStream.next document =
      (.ok (some (.startTag ⟨"b", []⟩)), ⟨[0x3C, 0x61, 0x2F, 0x3E], .complete, 4, [], some "b"⟩) :=
    Cursor.read_of_event
      (@Cursor.readOpenTag_slash _ [0x62, 0x2F] _ rfl (tag "b" (by decide)).decodeTag)
  have second : EventStream.next (⟨[0x3C, 0x61, 0x2F, 0x3E], .complete, 4, [], none⟩ : Cursor) =
      (.ok (some (.startTag ⟨"a", []⟩)), ⟨[], .complete, 8, [], some "a"⟩) :=
    Cursor.read_of_event
      (@Cursor.readOpenTag_slash _ [0x61, 0x2F] _ rfl (tag "a" (by decide)).decodeTag)
  have called : x.next = (some (.ok ⟨"<a></a>"⟩), ⟨atEnd, .ofSelector selector, .none, 1, false⟩) := by
    refine (next_goesOn first (Matcher.consume_skip (by decide))).trans ?_
    refine (next_goesOn rfl rfl).trans ?_
    exact (next_goesOn second (Matcher.consume_capture (by decide))).trans (next_fragment rfl rfl)
  have fragment : (x.reply 0).item = some (.ok ⟨"<a></a>"⟩) := congrArg Prod.fst called
  have top : (x.after 1).depth = 0 := congrArg (fun y => y.2.depth) called
  obtain ⟨resumed, waits⟩ := extract_resumed selector .none
  obtain ⟨captured, again⟩ := (resumed document).2 0 _ fragment
  exact ⟨fragment, top, waits bytes .complete 0 _ fragment, captured, again top 0⟩

end Selector

end SubtreeHarvest

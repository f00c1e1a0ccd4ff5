/-
Extraction from a source whose events are well nested. A matcher that searches inside `d` elements,
or is inside `d` elements in all, has met the start tags of `d` elements that are still open; so an
end tag takes it out of the document only where no element is open, which a well nested source
never answers. Such an extraction ends without a failure only at the end of the source and with
every element closed. A document read from bytes is such a source, whatever the bytes are.
-/
import SubtreeHarvest.Proofs.Extract.Calls
import SubtreeHarvest.Proofs.Extract.Consumes
import SubtreeHarvest.Proofs.Extract.Course
import SubtreeHarvest.Proofs.Markup.Nested
import SubtreeHarvest.Proofs.Markup.Written

namespace SubtreeHarvest

/-- More elements around the same events stay open behind them. -/
theorem Event.depthBehind_add {depth behind : Nat} {event : Event}
    (h : depthBehind depth [event] = some behind) (more : Nat) :
    depthBehind (more + depth) [event] = some (more + behind) := by
  cases event with
  | startTag tag => cases h; rfl
  | endTag name =>
    cases depth with
    | zero => cases h
    | succ depth => cases h; rfl
  | text content => cases h; rfl
  | cdata content => cases h; rfl

/-! ## Open elements -/

namespace Matcher

open Event

/-- How many elements are open: those descended into, and those skipped or captured. -/
def opened (m : Matcher) : Nat :=
  match m.activity with
  | .searching => m.depth
  | .skipping depth => m.depth + 1 + depth
  | .capturing depth _ => m.depth + 1 + depth

/-- There is no failure at an end exactly where no element is open. -/
theorem truncation_eq_none {m : Matcher} (h : m.truncation? = none) : m.opened = 0 := by
  obtain ⟨frames, activity⟩ := m
  cases activity with
  | searching =>
    by_cases deep : 0 < depth ⟨frames, .searching⟩
    · simp only [truncation?, deep, if_true] at h
      cases h
    · exact Nat.eq_zero_of_not_pos deep
  | skipping depth => cases h
  | capturing depth written => cases h

/-- The frame for the top of the document is there, and an event keeps the count of the open
elements. -/
structure Counts (m m₁ : Matcher) (event : Event) : Prop where
  based : m₁.frames ≠ []
  opened : depthBehind m.opened [event] = some m₁.opened

variable {limits : Limits} {m m₁ : Matcher} {event : Event}

theorem counts_of_goesOn (hm : m.frames ≠ []) (h : m.consume limits event = .goesOn m₁) :
    m.Counts m₁ event := by
  have rule : Consumes limits m event (.goesOn m₁) := h ▸ consumes m event
  cases rule with
  | captures ho => exact ⟨hm, rfl⟩
  | skips ho => exact ⟨hm, rfl⟩
  | descends ho hd => exact ⟨List.cons_ne_nil _ _, rfl⟩
  | comesUp => exact ⟨List.cons_ne_nil _ _, rfl⟩
  | passesText => exact ⟨hm, rfl⟩
  | passesCdata => exact ⟨hm, rfl⟩
  | passesOver hd => exact ⟨hm, depthBehind_add hd _⟩
  | skipped => exact ⟨hm, rfl⟩
  | writes hd hw => exact ⟨hm, depthBehind_add hd _⟩

theorem counts_of_fragment {fragment : Fragment} (hm : m.frames ≠ [])
    (h : m.consume limits event = .fragment fragment m₁) : m.Counts m₁ event := by
  have rule : Consumes limits m event (.fragment fragment m₁) := h ▸ consumes m event
  cases rule with
  | closes => exact ⟨hm, rfl⟩

/-- An event leads out of the document only where no element is open. -/
theorem depthBehind_of_leaves (hm : m.frames ≠ []) (h : m.consume limits event = .leaves m₁) :
    depthBehind m.opened [event] = none := by
  have rule : Consumes limits m event (.leaves m₁) := h ▸ consumes m event
  cases rule with
  | outside => exact absurd rfl hm
  | @leaves frames name hl =>
    have top : opened ⟨frames, .searching⟩ = 0 := Nat.sub_eq_zero_of_le hl
    rw [top]; rfl

end Matcher

namespace Extraction

open EventStream Event

variable {σ : Type} [EventStream σ] {x y z : Extraction σ}

/-- The source has answered the events between two states, and the matcher has kept count. -/
structure Counts (x z : Extraction σ) (events : List Event) : Prop where
  answered : Answers x.source events z.source
  based : z.matcher.frames ≠ []
  opened : depthBehind x.matcher.opened events = some z.matcher.opened

theorem Leads.counts (hx : x.matcher.frames ≠ []) (h : x.Leads y) : ∃ event, x.Counts y [event] := by
  cases h with
  | goesOn hn hc =>
    have := Matcher.counts_of_goesOn hx hc
    exact ⟨_, (answers_singleton ..).2 hn, this.based, this.opened⟩
  | fragment hn hc =>
    have := Matcher.counts_of_fragment hx hc
    exact ⟨_, (answers_singleton ..).2 hn, this.based, this.opened⟩

theorem Passes.counts (hx : x.matcher.frames ≠ []) (h : x.Passes z) : ∃ events, x.Counts z events := by
  induction h with
  | refl => exact ⟨[], rfl, hx, rfl⟩
  | tail _ h ih =>
    obtain ⟨events, hc⟩ := ih
    obtain ⟨event, he⟩ := h.counts hc.based
    refine ⟨events ++ [event], (answers_append ..).2 ⟨_, hc.answered, he.answered⟩, he.based, ?_⟩
    rw [depthBehind_append, hc.opened]
    exact he.opened

/-! ## Well nested sources -/

/-- An end tag that the source answers closes an element that it has started. -/
def WellNested (s : σ) : Prop :=
  ∀ events behind, Answers s events behind → ∃ d, depthBehind 0 events = some d

/-- No event of a well nested source leads out of the document. -/
theorem WellNested.not_leaves {selector : Selector} {limits : Limits} {s : σ} (hs : WellNested s)
    (h : (begin selector limits s).Passes z) {event : Event} {behind : σ} {m : Matcher}
    (hn : EventStream.next z.source = (.ok (some event), behind)) :
    z.matcher.consume z.limits event ≠ .leaves m := by
  intro hc
  obtain ⟨events, he⟩ := h.counts (List.cons_ne_nil _ _)
  have opened : depthBehind 0 events = some z.matcher.opened := he.opened
  obtain ⟨d, hd⟩ := hs (events ++ [event]) behind
    ((answers_append ..).2 ⟨_, he.answered, (answers_singleton ..).2 hn⟩)
  rw [depthBehind_append, opened, Option.bind_some, Matcher.depthBehind_of_leaves he.based hc] at hd
  cases hd

/-- A call that answers nothing, with no failure before it, has met the end of the source, behind
events that leave no element open. -/
theorem WellNested.exists_of_reply_none {selector : Selector} {limits : Limits} {s : σ}
    (hs : WellNested s) : ∀ (k : Nat) {x : Extraction σ}, (begin selector limits s).Passes x →
      x.finished = false → (x.reply k).item = none →
      (∀ j < k, ∀ failure, (x.reply j).item ≠ some (.error failure)) →
      ∃ events behind, Answers s events behind ∧ depthBehind 0 events = some 0 ∧
        EventStream.next behind = (.ok none, (x.after (k + 1)).source)
  | k, ⟨t, m, l, n, finished⟩, hp, hx, hk, hf => by
    cases hx
    obtain ⟨z, hz, decides⟩ := exists_decides t m l n
    have on : (begin selector limits s).Passes z := hp.trans hz
    rcases hn : next ⟨t, m, l, n, false⟩ with ⟨item, y⟩
    have noFailure : ∀ failure, item ≠ some (.error failure) := by
      rintro failure rfl
      cases k with
      | zero => rw [reply_zero hn] at hk; cases hk
      | succ k => exact hf 0 (Nat.succ_pos k) failure (by rw [reply_zero hn])
    rw [hn] at decides
    cases decides with
    | ended he ht =>
      obtain ⟨events, hc⟩ := on.counts (List.cons_ne_nil _ _)
      refine ⟨events, _, hc.answered, ?_, ?_⟩
      · have opened := hc.opened
        rw [Matcher.truncation_eq_none ht] at opened
        exact opened
      · rw [after, hn, after_finished rfl]
        exact he
    | leaves he hc => exact absurd hc (hs.not_leaves on he)
    | fragment he hc =>
      cases k with
      | zero => rw [reply_zero hn] at hk; cases hk
      | succ k =>
        rw [reply_succ, hn] at hk
        rw [after, hn]
        refine exists_of_reply_none hs k (on.tail (.fragment he hc)) rfl hk fun j hj failure => ?_
        have := hf (j + 1) (Nat.succ_lt_succ hj) failure
        rwa [reply_succ, hn] at this
    | failure | cutShort | exceeds => exact absurd rfl (noFailure _)

end Extraction

/-! ## Documents -/

namespace Markup.Cursor

open EventStream Event

/-- A document answers well nested events, whatever its bytes are. -/
theorem wellNested_ofBytes (bytes : List UInt8) (ending : Ending) :
    Extraction.WellNested { ofBytes bytes with ending } := by
  intro events behind ha
  obtain ⟨names, hn, -⟩ := opens_of_answers (opens_ofBytes bytes ending) ha
  exact ⟨_, depthBehind_of_namesBehind hn⟩

/-- Events of a document behind which no element is open are those of a forest. -/
theorem exists_forest_of_depthBehind {r behind : Cursor} {events : List Event} (ho : r.Opens [])
    (ha : Answers r events behind) (hd : depthBehind 0 events = some 0) :
    ∃ forest : Forest, forest.events = events := by
  obtain ⟨names, hn, -⟩ := opens_of_answers ho ha
  have counted := depthBehind_of_namesBehind hn
  rw [List.length_nil, hd, Option.some.injEq] at counted
  obtain rfl := List.eq_nil_of_length_eq_zero counted.symm
  obtain ⟨forest, hf⟩ := Forest.exists_of_namesBehind hn
  exact ⟨forest, by rw [hf]; exact List.append_nil events⟩

end Markup.Cursor

namespace Selector

open EventStream Event Extraction Markup

/-- Whatever the bytes of a document are, and however they end, the events it answers in front of
a failure or its end are the front part of a forest, each end tag with the name of the element it
closes, and an end tag that waits is that of the start tag answered last. So no extraction from it
leaves the document by an end tag; one that ends without a failure has met the end of the document,
with every element in it closed. -/
theorem extract_document (bytes : List UInt8) (ending : Ending) (selector : Selector)
    (limits : Limits) :
    let document : Cursor := { Cursor.ofBytes bytes with ending }
    let x := begin selector limits document
    (∀ events behind, Answers document events behind →
      (∃ names, namesBehind [] events = some names ∧
        ∃ forest : Forest, forest.events = events ++ names.map .endTag) ∧
      ∀ name, behind.queuedEnd = some name →
        ∃ earlier tag, events = earlier ++ [.startTag tag] ∧ tag.name = name ∧
          EventStream.next behind = (.ok (some (.endTag name)), { behind with queuedEnd := none })) ∧
    (∀ z, x.Passes z → ∀ event behind m, EventStream.next z.source = (.ok (some event), behind) →
      z.matcher.consume limits event ≠ .leaves m) ∧
    ∀ k, (x.reply k).item = none →
      (∀ j < k, ∀ failure, (x.reply j).item ≠ some (.error failure)) →
      ∃ forest behind, Answers document (Forest.events forest) behind ∧
        EventStream.next behind = (.ok none, (x.after (k + 1)).source) := by
  intro document x
  have opens : document.Opens [] := Cursor.opens_ofBytes bytes ending
  have nested : WellNested document := Cursor.wellNested_ofBytes bytes ending
  refine ⟨fun events behind ha => ⟨?_, fun name hw => ?_⟩, fun z hz event behind m hn => ?_,
    fun k hk hf => ?_⟩
  · obtain ⟨names, hn, -⟩ := Cursor.opens_of_answers opens ha
    exact ⟨names, hn, Forest.exists_of_namesBehind hn⟩
  · exact Cursor.waits_of_answers opens rfl ha hw
  · rw [← show z.limits = limits from hz.limits_eq]
    exact nested.not_leaves hz hn
  · obtain ⟨events, behind, ha, hd, hn⟩ := nested.exists_of_reply_none k .refl rfl hk hf
    obtain ⟨forest, rfl⟩ := Cursor.exists_forest_of_depthBehind opens ha hd
    exact ⟨forest, behind, ha, hn⟩

/-- The four bytes of an empty element: its end tag waits, is answered next, and nothing is open at
the end. -/
theorem extract_document_empty_element :
    let document := Cursor.ofBytes [0x3C, 0x61, 0x2F, 0x3E]
    let x := begin ⟨"/a", ⟨⟨some "a", none, false⟩, []⟩⟩ .none document
    (∃ behind, Answers document [.startTag ⟨"a", []⟩] behind ∧ behind.queuedEnd = some "a" ∧
      EventStream.next behind = (.ok (some (.endTag "a")), { behind with queuedEnd := none })) ∧
    (x.reply 0).item = some (.ok ⟨"<a></a>"⟩) ∧ (x.reply 1).item = none ∧
      ∃ forest behind, Answers document (Forest.events forest) behind ∧
        EventStream.next behind = (.ok none, (x.after 2).source) := by
  intro document x
  let waiting : Cursor := ⟨[], .complete, 4, [], some "a"⟩
  have writable : (⟨"a", []⟩ : Tag).Writable := by decide
  have started : EventStream.next document = (.ok (some (.startTag ⟨"a", []⟩)), waiting) :=
    Cursor.read_of_event (@Cursor.readOpenTag_slash _ [0x61, 0x2F] _ rfl writable.decodeTag)
  have answered : Answers document [.startTag ⟨"a", []⟩] waiting := (answers_singleton ..).2 started
  obtain ⟨events, -, ended⟩ := extract_document [0x3C, 0x61, 0x2F, 0x3E] .complete
    ⟨"/a", ⟨⟨some "a", none, false⟩, []⟩⟩ .none
  obtain ⟨earlier, tag, -, -, closed⟩ := (events _ waiting answered).2 "a" rfl
  have items : x.items = [.ok ⟨"<a></a>"⟩] := by
    have captures : Chain.offer ⟨⟨some "a", none, false⟩, []⟩ ⟨"a", []⟩ = .capture := by decide
    refine (items_goesOn started (Matcher.consume_capture captures)).trans ?_
    refine (items_fragment closed rfl).trans ?_
    exact congrArg (List.cons _) (items_end (Cursor.next_standing_nil 4 []) rfl)
  have first : (x.reply 0).item = some (.ok ⟨"<a></a>"⟩) := by rw [item_reply, items]; rfl
  have second : (x.reply 1).item = none := by rw [item_reply, items]; rfl
  have noFailure : ∀ j < 1, ∀ failure, (x.reply j).item ≠ some (.error failure) := by
    intro j hj failure
    obtain rfl : j = 0 := by omega
    rw [first]
    nofun
  exact ⟨⟨waiting, answered, rfl, closed⟩, first, second, ended 1 second noFailure⟩

end Selector

end SubtreeHarvest

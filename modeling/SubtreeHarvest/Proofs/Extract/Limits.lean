/-
The two limits on an extraction, side by side with an extraction whose limits are looser, or that
has none. The two reply alike up to the first event that goes past a limit: a start tag to be
descended into where as many elements are open already as may be, or an event inside a captured
element, not the end tag that closes it, with which more is written than may be. There the one with
the tighter limits fails with the limit, and behind that it answers nothing. So its fragments are
the first of those under the looser limits.

What an event goes past is said of the matcher alone, and the proof goes along the course of the
extraction under the looser limits: the step that goes past no limit is a step under both.
-/
import SubtreeHarvest.Proofs.Extract.Calls
import SubtreeHarvest.Proofs.Extract.Consumes
import SubtreeHarvest.Proofs.Extract.Course

namespace SubtreeHarvest

/-- Each limit is at least as strict as the other one; zero is the loosest. -/
structure Limits.Within (limits looser : Limits) : Prop where
  depth : looser.maxDepth = 0 ∨ 0 < limits.maxDepth ∧ limits.maxDepth ≤ looser.maxDepth
  size : looser.maxSize = 0 ∨ 0 < limits.maxSize ∧ limits.maxSize ≤ looser.maxSize

namespace Limits

theorem within_none (limits : Limits) : limits.Within .none :=
  ⟨.inl rfl, .inl rfl⟩

theorem Within.admits {limits looser : Limits} {text : String} (h : limits.Within looser)
    (ha : limits.Admits text) : looser.Admits text := by
  rcases h.size with none | ⟨some, le⟩
  · exact .inl none
  · rcases ha with ha | ha
    · omega
    · exact .inr (Nat.le_trans ha le)

/-- What kind of failure it is when something goes past one of the limits. -/
def Exceeded (limits : Limits) (kind : FailureKind) : Prop :=
  (0 < limits.maxDepth ∧ kind = .depthExceeded limits.maxDepth) ∨
    (0 < limits.maxSize ∧ kind = .sizeExceeded limits.maxSize)

end Limits

/-! ## Past a limit -/

namespace Matcher

/-- An event goes past a limit. -/
inductive Breaks (limits : Limits) : Matcher → Event → FailureKind → Prop
  /-- As many elements are open as may be, and one more is to be descended into. -/
  | tooDeep {chain next : Chain} {below : List Chain} {tag : Tag} :
      chain.offer tag = .descend next → 0 < limits.maxDepth → limits.maxDepth ≤ below.length →
      Breaks limits ⟨chain :: below, .searching⟩ (.startTag tag) (.depthExceeded limits.maxDepth)
  /-- The event does not close the captured element, and too much is written with it. -/
  | tooLarge {frames : List Chain} {depth behind : Nat} {written : String} {event : Event} :
      Event.depthBehind depth [event] = some behind → 0 < limits.maxSize →
      limits.maxSize < (written ++ event.written).utf8ByteSize →
      Breaks limits ⟨frames, .capturing depth written⟩ event (.sizeExceeded limits.maxSize)

variable {limits looser : Limits} {m : Matcher} {event : Event}

theorem Breaks.exceeded {kind : FailureKind} (h : m.Breaks limits event kind) : limits.Exceeded kind := by
  cases h with
  | tooDeep _ some _ => exact .inl ⟨some, rfl⟩
  | tooLarge _ some _ => exact .inr ⟨some, rfl⟩

/-- These are the events at which a matcher fails. -/
theorem consume_eq_exceeds_iff {kind : FailureKind} :
    m.consume limits event = .exceeds kind ↔ m.Breaks limits event kind := by
  constructor
  · intro h
    have rule : Consumes limits m event (.exceeds kind) := h ▸ consumes m event
    cases rule with
    | tooDeep ho hd hb => exact .tooDeep ho hd hb
    | tooLarge hd hw =>
      rw [Limits.Admits, not_or] at hw
      exact .tooLarge hd (Nat.pos_of_ne_zero hw.1) (Nat.not_le.1 hw.2)
  · intro h
    cases h with
    | tooDeep ho hd hb => exact consume_tooDeep ho hd hb
    | tooLarge hd hm hw => exact (Consumes.tooLarge hd (by rw [Limits.Admits]; omega)).consume_eq

/-- At every other event the matcher does what it does under looser limits. -/
theorem consume_of_within (h : limits.Within looser) (hb : ∀ kind, ¬ m.Breaks limits event kind) :
    m.consume limits event = m.consume looser event := by
  refine (Consumes.consume_eq ?_).symm
  have rule := @consumes limits m event
  generalize fails : m.consume limits event = outcome at rule
  cases rule with
  | outside => exact .outside
  | captures ho => exact .captures ho
  | skips ho => exact .skips ho
  | descends ho hd => exact .descends ho (by have := h.depth; omega)
  | leaves hl => exact .leaves hl
  | comesUp => exact .comesUp
  | passesText => exact .passesText
  | passesCdata => exact .passesCdata
  | passesOver hd => exact .passesOver hd
  | skipped => exact .skipped
  | writes hd hw => exact .writes hd (h.admits hw)
  | closes => exact .closes
  | tooDeep | tooLarge => exact absurd (consume_eq_exceeds_iff.1 fails) (hb _)

end Matcher

/-! ## Two extractions side by side -/

namespace Extraction

variable {σ : Type} [EventStream σ]

/-- The same extraction under other limits. -/
def under (x : Extraction σ) (limits : Limits) : Extraction σ :=
  { x with limits }

/-- The next event, with the source at `behind` afterwards, goes past a limit. -/
def Breaks (limits : Limits) (x : Extraction σ) (kind : FailureKind) (behind : σ) : Prop :=
  x.finished = false ∧ ∃ event, EventStream.next x.source = (.ok (some event), behind) ∧
    x.matcher.Breaks limits event kind

/-- The states that an extraction passes through before an event goes past a limit. -/
abbrev PassesWithin (limits : Limits) : Extraction σ → Extraction σ → Prop :=
  Relation.ReflTransGen fun x y => x.Leads y ∧ ∀ kind behind, ¬ x.Breaks limits kind behind

variable {limits : Limits} {x y z : Extraction σ}

theorem PassesWithin.passes (h : x.PassesWithin limits z) : x.Passes z :=
  Relation.ReflTransGen.mono (fun _ _ h => h.1) _ _ h

theorem Breaks.exceeded {kind : FailureKind} {behind : σ} (h : x.Breaks limits kind behind) :
    limits.Exceeded kind := by
  obtain ⟨-, event, -, hb⟩ := h
  exact hb.exceeded

theorem kind_seenBy (source : σ) (failure : Failure) : (seenBy source failure).kind = failure.kind := by
  unfold seenBy
  split <;> rfl

/-- An event that the extraction gets past under the limits goes past none of them. -/
theorem Leads.not_breaks (h : (x.under limits).Leads y) (kind : FailureKind) (behind : σ) :
    ¬ x.Breaks limits kind behind := by
  obtain ⟨s, m, looser, n, finished⟩ := x
  rintro ⟨-, event, hn, hb⟩
  have fails := Matcher.consume_eq_exceeds_iff.2 hb
  cases h with
  | goesOn hn' hc => cases hn.symm.trans hn'; cases fails.symm.trans hc
  | fragment hn' hc => cases hn.symm.trans hn'; cases fails.symm.trans hc

/-- Behind the item with which an extraction finishes, or the end, nothing changes any more. -/
theorem reply_last {item : Option (Except Failure Fragment)} (h : x.next = (item, z))
    (hz : z.finished = true) : ∀ k, x.reply k = ⟨if k = 0 then item else none, z.emitted, z.depth⟩
  | 0 => reply_zero h
  | k + 1 => by rw [reply_succ, h, reply_finished hz]; rfl

/-- The extraction fails at an event that goes past a limit, and is finished. -/
theorem Breaks.reply {kind : FailureKind} {behind : σ} (h : x.Breaks limits kind behind) (k : Nat) :
    (x.under limits).reply k =
      ⟨if k = 0 then some (.error (seenBy behind (.ofKind kind))) else none, x.emitted, x.depth⟩ := by
  obtain ⟨s, m, looser, n, finished⟩ := x
  obtain ⟨hf, event, hn, hb⟩ := h
  cases hf
  have fails := next_exceeds (n := n) hn (Matcher.consume_eq_exceeds_iff.2 hb)
  exact reply_last fails rfl k

/-- At a step that goes past no limit both extractions go on as behind it, or both answer the same
fragment first. -/
theorem Leads.reply_under (h : x.Leads y) (hl : limits.Within x.limits)
    (hb : ∀ kind behind, ¬ x.Breaks limits kind behind) :
    (y.emitted = x.emitted ∧
      ∀ k, x.reply k = y.reply k ∧ (x.under limits).reply k = (y.under limits).reply k) ∨
    (y.emitted = x.emitted + 1 ∧ (x.under limits).reply 0 = x.reply 0 ∧
      ∀ k, x.reply (k + 1) = y.reply k ∧
        (x.under limits).reply (k + 1) = (y.under limits).reply k) := by
  cases h with
  | @goesOn s s₁ m m₁ looser n event hn hc =>
    have tight := hc
    rw [← Matcher.consume_of_within hl fun kind hk => hb kind s₁ ⟨rfl, event, hn, hk⟩] at tight
    exact .inl ⟨rfl, fun k =>
      ⟨reply_congr (next_goesOn hn hc) k, reply_congr (next_goesOn hn tight) k⟩⟩
  | @fragment s s₁ m m₁ looser n event fragment hn hc =>
    have tight := hc
    rw [← Matcher.consume_of_within hl fun kind hk => hb kind s₁ ⟨rfl, event, hn, hk⟩] at tight
    have loose := next_fragment (n := n) hn hc
    have tight := next_fragment (n := n) hn tight
    refine .inr ⟨rfl, ?_, fun k => ⟨?_, ?_⟩⟩
    · rw [under, reply_zero tight, reply_zero loose]; rfl
    · rw [reply_succ, loose]
    · rw [reply_succ, under, tight]; rfl

/-- Up to a state in front of which no event goes past a limit the replies are alike, and from
there on they are those of the state. -/
theorem PassesWithin.reply (h : x.PassesWithin limits z) (hl : limits.Within x.limits) :
    ∃ made, z.emitted = x.emitted + made ∧
      (∀ k < made, (x.under limits).reply k = x.reply k) ∧
      ∀ k, x.reply (made + k) = z.reply k ∧
        (x.under limits).reply (made + k) = (z.under limits).reply k := by
  induction h using Relation.ReflTransGen.head_induction_on with
  | refl => exact ⟨0, rfl, fun k hk => absurd hk (Nat.not_lt_zero k), fun k => by simp⟩
  | @head x y h _ ih =>
    obtain ⟨made, count, front, behind⟩ := ih (h.1.limits_eq ▸ hl)
    rcases h.1.reply_under hl h.2 with ⟨none, next⟩ | ⟨one, first, next⟩
    · refine ⟨made, none ▸ count, fun k hk => ?_, fun k => ?_⟩
      · rw [(next k).1, (next k).2, front k hk]
      · rw [(next _).1, (next _).2]
        exact behind k
    · refine ⟨made + 1, by omega, fun k hk => ?_, fun k => ?_⟩
      · cases k with
        | zero => exact first
        | succ k => rw [(next k).1, (next k).2, front k (Nat.lt_of_succ_lt_succ hk)]
      · rw [Nat.add_right_comm, (next _).1, (next _).2]
        exact behind k

/-! ## The end of the course -/

theorem Leads.remaining_lt (h : x.Leads y) :
    EventStream.remaining y.source < EventStream.remaining x.source := by
  cases h with
  | goesOn hn _ => exact EventStream.remaining_next hn
  | fragment hn _ => exact EventStream.remaining_next hn

/-- The course of every extraction comes to an end. -/
theorem exists_stop (x : Extraction σ) : ∃ z, x.Passes z ∧ ∀ y, ¬ z.Leads y := by
  induction hr : EventStream.remaining x.source using Nat.strongRecOn generalizing x with
  | ind r ih =>
    by_cases h : ∃ y, x.Leads y
    · obtain ⟨y, h⟩ := h
      obtain ⟨z, hp, hz⟩ := ih _ (hr ▸ h.remaining_lt) y rfl
      exact ⟨z, .head h hp, hz⟩
    · exact ⟨x, .refl, not_exists.1 h⟩

/-- Where the course ends at an event that goes past no limit, both extractions end alike. -/
theorem reply_stop (hx : x.finished = false) (hs : ∀ y, ¬ x.Leads y) (hl : limits.Within x.limits)
    (hb : ∀ kind behind, ¬ x.Breaks limits kind behind) (k : Nat) :
    (x.under limits).reply k = x.reply k := by
  obtain ⟨s, m, looser, n, finished⟩ := x
  cases hx
  rw [under]
  rcases hn : EventStream.next s with ⟨_ | _ | event, s₁⟩
  · rw [reply_last (next_failure hn) rfl, reply_last (next_failure hn) rfl]; rfl
  · rcases ht : m.truncation? with _ | message
    · rw [reply_last (next_end hn ht) rfl, reply_last (next_end hn ht) rfl]; rfl
    · rw [reply_last (next_cutShort hn ht) rfl, reply_last (next_cutShort hn ht) rfl]; rfl
  · have none : ∀ kind, ¬ m.Breaks limits event kind :=
      fun kind hk => hb kind s₁ ⟨rfl, event, hn, hk⟩
    have same := Matcher.consume_of_within hl none
    cases hc : m.consume looser event with
    | goesOn m₁ => exact absurd (.goesOn hn hc) (hs _)
    | fragment made m₁ => exact absurd (.fragment hn hc) (hs _)
    | leaves m₁ =>
      rw [reply_last (next_leaves hn hc) rfl, reply_last (next_leaves hn (same.trans hc)) rfl]; rfl
    | exceeds kind => exact absurd (Matcher.consume_eq_exceeds_iff.1 (same.trans hc)) (none kind)

/-- A state on the way is come to before an event goes past a limit, or behind a first such event. -/
theorem Passes.within_or_breaks (h : x.Passes z) (limits : Limits) :
    x.PassesWithin limits z ∨
      ∃ y kind behind, x.PassesWithin limits y ∧ y.Breaks limits kind behind := by
  induction h using Relation.ReflTransGen.head_induction_on with
  | refl => exact .inl .refl
  | @head x y h _ ih =>
    by_cases hb : ∃ kind behind, x.Breaks limits kind behind
    · obtain ⟨kind, behind, hb⟩ := hb
      exact .inr ⟨x, kind, behind, .refl, hb⟩
    · have step : x.Leads y ∧ ∀ kind behind, ¬ x.Breaks limits kind behind :=
        ⟨h, fun kind behind hk => hb ⟨kind, behind, hk⟩⟩
      rcases ih with hz | ⟨w, kind, behind, hw, hk⟩
      · exact .inl (.head step hz)
      · exact .inr ⟨w, kind, behind, .head step hw, hk⟩

theorem Passes.unfinished (h : x.Passes z) (hx : x.finished = false) : z.finished = false := by
  induction h with
  | refl => exact hx
  | tail _ h _ => cases h <;> rfl

/-- An extraction comes to an event that goes past a limit, or replies as under the looser limits. -/
theorem breaks_or_reply_eq (hx : x.finished = false) (hl : limits.Within x.limits) :
    (∃ y kind behind, x.PassesWithin limits y ∧ y.Breaks limits kind behind) ∨
      ∀ k, (x.under limits).reply k = x.reply k := by
  obtain ⟨z, hz, hs⟩ := exists_stop x
  rcases hz.within_or_breaks limits with hw | hb
  · by_cases hb : ∃ kind behind, z.Breaks limits kind behind
    · obtain ⟨kind, behind, hb⟩ := hb
      exact .inl ⟨z, kind, behind, hw, hb⟩
    · obtain ⟨made, -, front, behind⟩ := hw.reply hl
      have last := reply_stop (hz.unfinished hx) hs (hz.limits_eq ▸ hl)
        fun kind behind hk => hb ⟨kind, behind, hk⟩
      refine .inr fun k => ?_
      rcases Nat.lt_or_ge k made with hk | hk
      · exact front k hk
      · obtain ⟨j, rfl⟩ := Nat.exists_eq_add_of_le hk
        rw [(behind j).1, (behind j).2, last]
  · exact .inl hb

/-- The replies of an extraction that comes to an event past a limit: those under the looser
limits, the failure, and nothing any more. -/
theorem PassesWithin.reply_of_breaks {kind : FailureKind} {behind : σ} (h : x.PassesWithin limits z)
    (hl : limits.Within x.limits) (hb : z.Breaks limits kind behind) :
    ∃ made, z.emitted = x.emitted + made ∧
      (∀ k < made, (x.under limits).reply k = x.reply k) ∧
      (x.under limits).reply made =
        ⟨some (.error (seenBy behind (.ofKind kind))), z.emitted, z.depth⟩ ∧
      ∀ k > made, (x.under limits).reply k = ⟨none, z.emitted, z.depth⟩ := by
  obtain ⟨made, count, front, on⟩ := h.reply hl
  refine ⟨made, count, front, ?_, fun k hk => ?_⟩
  · have := (on 0).2
    rwa [Nat.add_zero, hb.reply, if_pos rfl] at this
  · obtain ⟨j, rfl⟩ := Nat.exists_eq_add_of_lt hk
    have := (on (j + 1)).2
    rwa [← Nat.add_assoc, hb.reply, if_neg (Nat.succ_ne_zero j)] at this

/-! ## Fragments -/

/-- The fragments among some items. -/
def fragmentsOf (items : List (Except Failure Fragment)) : List Fragment :=
  items.filterMap Except.toOption

theorem fragmentsOf_append (items more : List (Except Failure Fragment)) :
    fragmentsOf (items ++ more) = fragmentsOf items ++ fragmentsOf more :=
  List.filterMap_append

/-- The items are those under looser limits, or the first of these and then the failure of a limit. -/
theorem items_limited (hx : x.finished = false) (hl : limits.Within x.limits) :
    (x.under limits).items = x.items ∨ ∃ made failure, limits.Exceeded failure.kind ∧
      (x.under limits).items = x.items.take made ++ [.error failure] := by
  rcases breaks_or_reply_eq hx hl with ⟨z, kind, behind, hz, hb⟩ | same
  · obtain ⟨made, -, front, fails, ends⟩ := hz.reply_of_breaks hl hb
    have taken : (x.under limits).items.take made = x.items.take made := by
      refine List.ext_getElem? fun k => ?_
      by_cases hk : k < made
      · rw [List.getElem?_take_of_lt hk, List.getElem?_take_of_lt hk, ← item_reply, front k hk, item_reply]
      · rw [List.getElem?_take_eq_none (Nat.not_lt.1 hk), List.getElem?_take_eq_none (Nat.not_lt.1 hk)]
    have rest : (x.under limits).items.drop made = [.error (seenBy behind (.ofKind kind))] := by
      refine List.ext_getElem? fun k => ?_
      rw [List.getElem?_drop, ← item_reply]
      cases k with
      | zero => rw [Nat.add_zero, fails]; rfl
      | succ k => rw [ends _ (by omega)]; rfl
    refine .inr ⟨made, seenBy behind (.ofKind kind), ?_, ?_⟩
    · rw [kind_seenBy]
      exact hb.exceeded
    · rw [← taken, ← rest, List.take_append_drop]
  · exact .inl (List.ext_getElem? fun k => by rw [← item_reply, ← item_reply, same])

/-- The fragments are the first of those under looser limits. -/
theorem fragments_prefix (hx : x.finished = false) (hl : limits.Within x.limits) :
    fragmentsOf (x.under limits).items <+: fragmentsOf x.items := by
  rcases items_limited hx hl with same | ⟨made, failure, -, cut⟩
  · exact same ▸ List.prefix_refl _
  · -- the failure is no fragment
    have none : fragmentsOf [.error failure] = [] := rfl
    rw [cut, fragmentsOf_append, none, List.append_nil]
    exact (List.take_prefix made x.items).filterMap _

end Extraction

namespace Selector

open Extraction

/-- An extraction under limits replies call by call as without limits, with the same counters, if
no event goes past a limit. Else there is a first such event: in front of it the replies are those
without limits, there the extraction fails with the limit, and behind it nothing is answered any
more. Looser limits keep all the fragments, unchanged and in front. -/
theorem extract_limited {σ : Type} [EventStream σ] (selector : Selector) (limits : Limits)
    (source : σ) :
    let free := begin selector .none source
    let limited := begin selector limits source
    ((∀ z, free.Passes z → ∀ kind behind, ¬ z.Breaks limits kind behind) →
      ∀ k, limited.reply k = free.reply k) ∧
    (∀ z kind behind, free.Passes z → z.Breaks limits kind behind →
      ∃ first kind behind, free.PassesWithin limits first ∧ first.Breaks limits kind behind) ∧
    (∀ first kind behind, free.PassesWithin limits first → first.Breaks limits kind behind →
      (∀ k < first.emitted, limited.reply k = free.reply k) ∧
      limited.reply first.emitted =
        ⟨some (.error (seenBy behind (.ofKind kind))), first.emitted, first.depth⟩ ∧
      ∀ k > first.emitted, limited.reply k = ⟨none, first.emitted, first.depth⟩) ∧
    ∀ looser, limits.Within looser →
      fragmentsOf (selector.extract limits source) <+: fragmentsOf (selector.extract looser source) := by
  intro free limited
  have loosest : limits.Within free.limits := limits.within_none
  refine ⟨fun none => ?_, fun z kind behind hz hb => ?_, fun first kind behind hz hb => ?_,
    fun looser hl => fragments_prefix (x := begin selector looser source) rfl hl⟩
  · rcases breaks_or_reply_eq (x := free) rfl loosest with ⟨z, kind, behind, hz, hb⟩ | same
    · exact absurd hb (none z hz.passes kind behind)
    · exact same
  · rcases hz.within_or_breaks limits with hw | hw
    · exact ⟨z, kind, behind, hw, hb⟩
    · exact hw
  · obtain ⟨made, count, replies⟩ := hz.reply_of_breaks loosest hb
    rw [show free.emitted = 0 from rfl, Nat.zero_add] at count
    exact count ▸ replies

/-- An empty element is within a limit of five bytes on a fragment; the text in the next one goes
past it. -/
theorem extract_limited_size :
    let selector : Selector := ⟨"/a/b", ⟨⟨some "a", none, false⟩, [⟨some "b", none, false⟩]⟩⟩
    let a : Tag := ⟨"a", []⟩
    let b : Tag := ⟨"b", []⟩
    let source := Feed.ofEvents [.startTag a, .startTag b, .endTag "b", .startTag b, .text "0123",
      .endTag "b", .endTag "a"]
    let limits : Limits := ⟨1, 5⟩
    let limited := begin selector limits source
    limits.Within ⟨0, 9⟩ ∧ limited.reply 0 = (begin selector .none source).reply 0 ∧
      limited.reply 1 = ⟨some (.error (.ofKind (.sizeExceeded 5))), 1, 1⟩ ∧
      limited.reply 2 = ⟨none, 1, 1⟩ ∧
      fragmentsOf (selector.extract limits source) <+: fragmentsOf (selector.extract ⟨0, 9⟩ source) := by
  intro selector a b source limits limited
  have hl : limits.Within ⟨0, 9⟩ := ⟨.inl rfl, .inr ⟨by decide, by decide⟩⟩
  -- the states in front of the text
  let outer : Chain := ⟨⟨some "a", none, false⟩, [⟨some "b", none, false⟩]⟩
  let inner : Chain := ⟨⟨some "b", none, false⟩, []⟩
  let first : Extraction Feed :=
    ⟨Feed.ofEvents [.text "0123", .endTag "b", .endTag "a"], ⟨[inner, outer], .capturing 0 "<b>"⟩,
      .none, 1, false⟩
  have way : (begin selector .none source).PassesWithin limits first := by
    have enters : outer.offer a = .descend inner := by decide
    have captures : inner.offer b = .capture := by decide
    have step : ∀ {x y : Extraction Feed}, x.Leads y → (x.under limits).Leads (y.under limits) →
        x.Leads y ∧ ∀ kind behind, ¬ x.Breaks limits kind behind :=
      fun h tight => ⟨h, tight.not_breaks⟩
    refine .head (step (.goesOn rfl (Matcher.consume_descend enters (.inl rfl)))
      (.goesOn rfl (Matcher.consume_descend enters (.inr (by decide))))) ?_
    refine .head (step (.goesOn rfl (Matcher.consume_capture captures))
      (.goesOn rfl (Matcher.consume_capture captures))) ?_
    refine .head (step (.fragment rfl rfl) (.fragment rfl rfl)) ?_
    exact .single (step (.goesOn rfl (Matcher.consume_capture captures))
      (.goesOn rfl (Matcher.consume_capture captures)))
  have past : first.Breaks limits (.sizeExceeded 5) (Feed.ofEvents [.endTag "b", .endTag "a"]) :=
    ⟨rfl, .text "0123", rfl, .tooLarge rfl (by decide) (by decide)⟩
  obtain ⟨-, -, replies, looser⟩ := extract_limited selector limits source
  obtain ⟨front, fails, ends⟩ := replies first _ _ way past
  exact ⟨hl, front 0 (by decide), fails, ends 2 (by decide), looser _ hl⟩

end Selector

end SubtreeHarvest

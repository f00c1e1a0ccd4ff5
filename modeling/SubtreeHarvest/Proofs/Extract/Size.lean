/-
The limit on the size of a fragment. It is looked at behind every event inside a captured element,
and not behind the end tag that closes the element. So an element becomes a fragment exactly when
it is empty, or its text in front of that end tag is within the limit; with the end tag the
fragment may be larger than the limit, and a fragment that is only a start tag and an end tag may
be of any size. Every other captured element ends the extraction.

The proof that nothing else is answered carries along what a capturing matcher has behind it: the
state at which it met the start tag, and the events since, which it has written.
-/
import SubtreeHarvest.Proofs.Extract.Captured
import SubtreeHarvest.Proofs.Extract.Course

namespace SubtreeHarvest

/-- An element as an extraction meets it: its start tag, the events inside, and the name in the
end tag that closes it. -/
structure Capture where
  tag : Tag
  inside : List Event
  name : String

namespace Capture

def events (c : Capture) : List Event :=
  .startTag c.tag :: (c.inside ++ [.endTag c.name])

/-- The text in front of the end tag. -/
def opened (c : Capture) : String :=
  Event.writtenAll (.startTag c.tag :: c.inside)

def fragment (c : Capture) : Fragment :=
  ⟨Event.writtenAll c.events⟩

/-- The element is empty, or its text in front of the end tag is within the limit. -/
def Passable (limits : Limits) (c : Capture) : Prop :=
  c.inside = [] ∨ limits.Admits c.opened

end Capture

namespace Extraction

open EventStream Event

variable {σ : Type} [EventStream σ]

/-- The element comes next to an extraction that searches, whose chain in effect captures it. -/
structure Captures (x : Extraction σ) (c : Capture) : Prop where
  unfinished : x.finished = false
  searching : x.matcher.activity = .searching
  offered : ∃ chain below, x.matcher.frames = chain :: below ∧ chain.offer c.tag = .capture
  answered : ∃ after, Answers x.source c.events after
  enclosed : depthBehind 0 c.inside = some 0

/-- An element that is empty or within the limit is the next item. -/
theorem Captures.next_eq_ok {x : Extraction σ} {c : Capture} (h : x.Captures c)
    (hp : c.Passable x.limits) : x.next.1 = some (.ok c.fragment) := by
  obtain ⟨s, ⟨frames, activity⟩, limits, n, finished⟩ := x
  obtain ⟨hf, hs, ⟨chain, below, hframes, ho⟩, ⟨after, ha⟩, hd⟩ := h
  cases hf; cases hs; cases hframes
  rw [next_of_capture ho ha hd hp]
  rfl

/-- Any other ends the extraction. -/
theorem Captures.next_eq_error {x : Extraction σ} {c : Capture} (h : x.Captures c)
    (hp : ¬ c.Passable x.limits) :
    ∃ source : σ, x.next.1 = some (.error (seenBy source (.ofKind (.sizeExceeded x.limits.maxSize)))) := by
  obtain ⟨s, ⟨frames, activity⟩, limits, n, finished⟩ := x
  obtain ⟨hf, hs, ⟨chain, below, hframes, ho⟩, ⟨after, s₁, hn, ha⟩, hd⟩ := h
  cases hf; cases hs; cases hframes
  obtain ⟨s₂, hi, -⟩ := (answers_append ..).1 ha
  rw [Capture.Passable, not_or] at hp
  rw [next_goesOn hn (Matcher.consume_capture ho)]
  obtain ⟨s₃, m, he⟩ := next_capturing_exceeds hi hd hp.1 hp.2
  exact ⟨s₃, by rw [he]⟩

/-! ## What a capturing matcher has behind it -/

/-- The state `x` met the start tag, and the matcher has written it and the events `seen` since. -/
structure Writes (x y : Extraction σ) (tag : Tag) (seen : List Event) (depth : Nat)
    (written : String) : Prop where
  unfinished : x.finished = false
  searching : x.matcher.activity = .searching
  offered : ∃ chain below, x.matcher.frames = chain :: below ∧ chain.offer tag = .capture
  answered : Answers x.source (.startTag tag :: seen) y.source
  enclosed : depthBehind 0 seen = some depth
  written_eq : written = writtenAll (.startTag tag :: seen)
  within : seen = [] ∨ y.limits.Admits written

/-- A capturing matcher is on its way from a state that met the start tag. -/
def Recalls (x₀ y : Extraction σ) : Prop :=
  ∀ depth written, y.matcher.activity = .capturing depth written →
    ∃ x tag seen, x₀.Passes x ∧ x.Writes y tag seen depth written

theorem Recalls.step {x₀ y z : Extraction σ} (hp : x₀.Passes y) (hr : Recalls x₀ y)
    (h : y.Leads z) : Recalls x₀ z := by
  intro depth written ha
  cases h with
  | @goesOn s s₁ m m₁ limits n event hn hc =>
    rcases Matcher.capturing_of_consume hc ha with
      ⟨tag, chain, below, rfl, rfl, ho, rfl, hw⟩ | ⟨d, w, hm, hd, hw, hl⟩
    · -- the start tag has just been met
      exact ⟨_, tag, [], hp, rfl, rfl, ⟨chain, below, rfl, ho⟩, ⟨s₁, hn, rfl⟩, rfl, by simpa using hw,
        .inl rfl⟩
    · -- the state that met the start tag is the same, with one more event since
      obtain ⟨x, tag, seen, hx, hwr⟩ := hr d w hm
      refine ⟨x, tag, seen ++ [event], hx, hwr.unfinished, hwr.searching, hwr.offered, ?_, ?_, ?_, .inr hl⟩
      · rw [← List.cons_append, answers_append]
        exact ⟨s, hwr.answered, (answers_singleton ..).2 hn⟩
      · rw [depthBehind_append, hwr.enclosed]; exact hd
      · rw [hw, hwr.written_eq, ← List.cons_append, writtenAll_append, writtenAll_singleton]
  | fragment hn hc =>
    rw [(Matcher.consume_eq_fragment hc).1] at ha; cases ha

theorem Recalls.of_passes {x₀ y : Extraction σ} (hs : x₀.matcher.activity = .searching)
    (h : x₀.Passes y) : Recalls x₀ y := by
  induction h with
  | refl => intro depth written ha; rw [hs] at ha; cases ha
  | tail hp h ih => exact ih.step hp h

/-- A fragment is a captured element that is empty or within the limit, and is made of the end tag
that closes it: what the source has answered since the state that met the start tag is the element. -/
theorem exists_captures_of_consume {x₀ y : Extraction σ} {event : Event} {s₁ : σ} {m₁ : Matcher}
    {fragment : Fragment} (hs : x₀.matcher.activity = .searching) (hp : x₀.Passes y)
    (hn : EventStream.next y.source = (.ok (some event), s₁))
    (hc : y.matcher.consume y.limits event = .fragment fragment m₁) :
    ∃ x c, x₀.Passes x ∧ x.Captures c ∧ c.Passable x.limits ∧ c.fragment = fragment ∧
      Answers x.source c.events s₁ := by
  obtain ⟨-, written, name, hm, rfl, rfl⟩ := Matcher.consume_eq_fragment hc
  obtain ⟨x, tag, seen, hx, hw⟩ := Recalls.of_passes hs hp 0 written hm
  have hl : y.limits = x.limits := hp.limits_eq.trans hx.limits_eq.symm
  have answered : Answers x.source (Capture.events ⟨tag, seen, name⟩) s₁ := by
    rw [Capture.events, ← List.cons_append, answers_append]
    exact ⟨y.source, hw.answered, (answers_singleton ..).2 hn⟩
  refine ⟨x, ⟨tag, seen, name⟩, hx, ⟨hw.unfinished, hw.searching, hw.offered, ⟨s₁, answered⟩, hw.enclosed⟩,
    ?_, ?_, answered⟩
  · rw [Capture.Passable, Capture.opened, ← hw.written_eq, ← hl]
    exact hw.within
  · rw [Capture.fragment, Capture.events, ← List.cons_append, writtenAll_append, writtenAll_singleton,
      hw.written_eq]

/-- Every fragment is a captured element that is empty or within the limit. -/
theorem Gives.exists_captures {x₀ y : Extraction σ} {fragment : Fragment}
    (hs : x₀.matcher.activity = .searching) (hp : x₀.Passes y) (h : y.Gives fragment) :
    ∃ x c, x₀.Passes x ∧ x.Captures c ∧ c.Passable x.limits ∧ c.fragment = fragment := by
  obtain ⟨-, event, s₁, m₁, hn, hc⟩ := h
  obtain ⟨x, c, hx, hcap, hpass, he, -⟩ := exists_captures_of_consume hs hp hn hc
  exact ⟨x, c, hx, hcap, hpass, he⟩

theorem mem_items_of_captures {x₀ x : Extraction σ} {c : Capture} (hx : x₀.Passes x)
    (h : x.Captures c) (hp : c.Passable x.limits) : .ok c.fragment ∈ x₀.items := by
  refine hx.items_suffix.mem ?_
  rcases hn : x.next with ⟨item, x₁⟩
  have hi := h.next_eq_ok hp
  rw [hn] at hi
  cases hi
  rw [items_of_some hn]
  exact List.mem_cons_self

end Extraction

namespace Selector

open Extraction

/-- The fragments under a limit on their size are exactly the captured elements met on the way
that are empty or within the limit in front of their end tag; any other captured element fails.
So all fragments are within the limit exactly when every captured element is, or is refused. -/
theorem fragments_within_size_iff {σ : Type} [EventStream σ] (selector : Selector) (limits : Limits)
    (source : σ) (hm : 0 < limits.maxSize) :
    (∀ fragment, .ok fragment ∈ selector.extract limits source ↔
      ∃ x c, (begin selector limits source).Passes x ∧ x.Captures c ∧ c.Passable limits ∧
        c.fragment = fragment) ∧
    (∀ x c, (begin selector limits source).Passes x → x.Captures c → ¬ c.Passable limits →
      ∃ behind : σ, x.next.1 = some (.error (seenBy behind (.ofKind (.sizeExceeded limits.maxSize))))) ∧
    ((∀ fragment, .ok fragment ∈ selector.extract limits source →
        fragment.text.utf8ByteSize ≤ limits.maxSize) ↔
      ∀ x c, (begin selector limits source).Passes x → x.Captures c →
        c.fragment.text.utf8ByteSize ≤ limits.maxSize ∨
          c.inside ≠ [] ∧ limits.maxSize < c.opened.utf8ByteSize) := by
  have hl : ∀ {x}, (begin selector limits source).Passes x → x.limits = limits :=
    fun h => h.limits_eq
  have hiff : ∀ fragment, .ok fragment ∈ selector.extract limits source ↔
      ∃ x c, (begin selector limits source).Passes x ∧ x.Captures c ∧ c.Passable limits ∧
        c.fragment = fragment := by
    intro fragment
    constructor
    · intro h
      obtain ⟨y, hy, hg⟩ := exists_gives h
      obtain ⟨x, c, hx, hc, hp, he⟩ := hg.exists_captures rfl hy
      exact ⟨x, c, hx, hc, hl hx ▸ hp, he⟩
    · rintro ⟨x, c, hx, hc, hp, rfl⟩
      exact mem_items_of_captures hx hc ((hl hx).symm ▸ hp)
  refine ⟨hiff, fun x c hx hc hp => ?_, fun h x c hx hc => ?_, fun h fragment hf => ?_⟩
  · have := hc.next_eq_error (by rw [hl hx]; exact hp)
    rwa [hl hx] at this
  · by_cases hp : c.Passable limits
    · exact .inl (h _ ((hiff _).2 ⟨x, c, hx, hc, hp, rfl⟩))
    · rw [Capture.Passable, Limits.Admits, not_or, not_or] at hp
      exact .inr ⟨hp.1, by omega⟩
  · obtain ⟨x, c, hx, hc, hp, rfl⟩ := (hiff _).1 hf
    rcases h x c hx hc with h | ⟨hi, ho⟩
    · exact h
    · rcases hp with hp | hp | hp
      · exact absurd hp hi
      · omega
      · omega

/-- An empty element of seven bytes passes a limit of three; one whose text is longer than the
limit does not. -/
theorem fragments_within_size_iff_three :
    let selector : Selector := ⟨"/v", ⟨⟨some "v", none, false⟩, []⟩⟩
    let limits : Limits := ⟨0, 3⟩
    let empty : Capture := ⟨⟨"v", []⟩, [], "v"⟩
    let full : Capture := ⟨⟨"v", []⟩, [.text "0123"], "v"⟩
    let x := begin selector limits (Feed.ofEvents empty.events)
    let y := begin selector limits (Feed.ofEvents full.events)
    0 < limits.maxSize ∧
      (x.Captures empty ∧ empty.Passable limits ∧ .ok empty.fragment ∈ x.items ∧
        ¬ ∀ fragment, .ok fragment ∈ x.items → fragment.text.utf8ByteSize ≤ limits.maxSize) ∧
      (y.Captures full ∧ ¬ full.Passable limits ∧ ∃ behind : Feed,
        y.next.1 = some (.error (seenBy behind (.ofKind (.sizeExceeded limits.maxSize))))) := by
  intro selector limits empty full x y
  have hx : x.Captures empty :=
    ⟨rfl, rfl, ⟨_, [], rfl, by decide⟩, ⟨_, Feed.answers_ofEvents empty.events⟩, rfl⟩
  have hy : y.Captures full :=
    ⟨rfl, rfl, ⟨_, [], rfl, by decide⟩, ⟨_, Feed.answers_ofEvents full.events⟩, rfl⟩
  have hf : ¬ full.Passable limits := by
    rintro (h | h | h)
    · cases h
    · cases h
    · revert h; decide
  obtain ⟨hiff, -, hall⟩ :=
    fragments_within_size_iff selector limits (Feed.ofEvents empty.events) (by decide)
  obtain ⟨-, herror, -⟩ :=
    fragments_within_size_iff selector limits (Feed.ofEvents full.events) (by decide)
  refine ⟨by decide, ⟨hx, .inl rfl, (hiff _).2 ⟨x, empty, .refl, hx, .inl rfl, rfl⟩, fun h => ?_⟩,
    hy, hf, herror y full .refl hy hf⟩
  rcases hall.1 h x empty .refl hx with h | ⟨h, -⟩
  · revert h; decide
  · exact h rfl

/-- A fragment larger than the limit: an empty element of seven bytes under a limit of three. -/
theorem empty_element_exceeds_size :
    ∃ selector, Selector.compile "/v" = .ok selector ∧
      .ok ⟨"<v></v>"⟩ ∈
        selector.extract ⟨0, 3⟩ (Feed.ofEvents [.startTag ⟨"v", []⟩, .endTag "v"]) ∧
      ¬ "<v></v>".utf8ByteSize ≤ 3 := by
  refine ⟨⟨"/v", ⟨⟨some "v", none, false⟩, []⟩⟩, rfl, ?_, by decide⟩
  have ho : Chain.offer ⟨⟨some "v", none, false⟩, []⟩ ⟨"v", []⟩ = .capture := by decide
  have ha := Feed.answers_ofEvents [.startTag ⟨"v", []⟩, .endTag "v"]
  rw [Selector.extract, begin, Matcher.ofSelector, items_of_some (next_of_capture ho ha rfl (.inl rfl))]
  exact List.mem_cons_self

end Selector

end SubtreeHarvest

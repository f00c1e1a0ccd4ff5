/-
What a cursor answers is well nested, whatever the bytes are: an end tag closes the element that
was started last and is not yet closed, and the end tag of an empty element comes directly behind
its start tag. The invariant is that the names the cursor holds, with the one whose end tag waits,
are those of the elements open behind the events answered so far.
-/
import SubtreeHarvest.Markup.Cursor
import SubtreeHarvest.Proofs.Forest.Unclosed

namespace SubtreeHarvest.Markup

open Event EventStream

/-- The name in a tag is the bytes up to the first space. -/
theorem decodeName_of_decodeTag {content : List UInt8} {tag : Tag} (h : decodeTag content = .ok tag) :
    decodeName (content.takeWhile (!Byte.isSpace ·)) = .ok tag.name := by
  unfold decodeTag at h
  cases hn : decodeName (content.takeWhile (!Byte.isSpace ·)) with
  | error fault => rw [hn] at h; cases h
  | ok name =>
    cases ha : attributesFrom content.length [] (content.dropWhile (!Byte.isSpace ·)) with
    | error fault => rw [hn, ha] at h; cases h
    | ok attributes => rw [hn, ha] at h; cases h; rfl

namespace Cursor

/-- The open elements of a cursor have the given names, innermost first. -/
def Inside (r : Cursor) (names : List String) : Prop :=
  r.openNames.map decodeName = names.map .ok

/-- The elements open behind what a cursor has answered have the given names; an empty element is
open until its end tag is answered. -/
inductive Opens : Cursor → List String → Prop
  | standing {r : Cursor} {names : List String} : r.queuedEnd = none → r.Inside names → Opens r names
  | waiting {r : Cursor} {names : List String} {name : String} :
      r.queuedEnd = some name → r.Inside names → Opens r (name :: names)

theorem opens_ofBytes (bytes : List UInt8) (ending : Ending) :
    Opens { ofBytes bytes with ending } [] :=
  .standing rfl rfl

/-! ## One construct -/

/-- What a construct comes to inside the elements of the given names: an event that is well nested
there and waits for its end tag only if it is a start tag, or no event and nothing changed. -/
inductive Nests (names : List String) : Step × Cursor → Prop
  | event {event : Event} {r : Cursor} {behind : List String} :
      namesBehind names [event] = some behind → r.Opens behind →
      (∀ name, r.queuedEnd = some name → ∃ tag, event = .startTag tag ∧ tag.name = name) →
      Nests names (.event event, r)
  | ignored {r : Cursor} : r.queuedEnd = none → r.Inside names → Nests names (.ignored, r)
  | ended {r : Cursor} : Nests names (.ended, r)
  | failed {failure : Failure} {r : Cursor} : Nests names (.failed failure, r)

variable {r : Cursor} {names : List String} {event : Event}

/-- An empty element is answered as a start tag, and its end tag waits. -/
theorem readOpenTag_slash {content : List UInt8} {tag : Tag} (h : content.getLast? = some Byte.slash)
    (ht : decodeTag content.dropLast = .ok tag) :
    r.readOpenTag content = (.event (.startTag tag), { r with queuedEnd := some tag.name }) := by
  simp only [readOpenTag, if_pos h, ht]

/-- An event behind which no end tag waits. -/
theorem Nests.of_standing {r : Cursor} {behind : List String}
    (hn : namesBehind names [event] = some behind) (hq : r.queuedEnd = none) (hr : r.Inside behind) :
    Nests names (.event event, r) :=
  .event hn (.standing hq hr) fun name h => by rw [hq] at h; cases h

theorem nests_exhausted {n : Nat} {complete : Step × Cursor} (h : Nests names complete) :
    Nests names (r.exhausted n complete) := by
  unfold exhausted
  dsimp only
  split
  · exact h
  · exact .failed
  · exact .failed

section

variable (hq : r.queuedEnd = none) (hr : r.Inside names)
include hq hr

theorem nests_readStretch : Nests names r.readStretch := by
  unfold readStretch
  split
  · exact .of_standing rfl hq hr
  · exact .failed

theorem nests_readText : Nests names r.readText := by
  unfold readText
  split
  · exact nests_exhausted (nests_readStretch hq hr)
  · exact nests_readStretch hq hr

theorem nests_readOpenTag (content : List UInt8) : Nests names (r.readOpenTag content) := by
  unfold readOpenTag
  split
  · split
    · -- an empty element waits for its end tag
      exact .event rfl (.waiting rfl hr) fun _ h => ⟨_, rfl, Option.some.inj h⟩
    · exact .failed
  · dsimp only
    split
    · rename_i tag ht
      refine .of_standing rfl hq ?_
      rw [Inside, List.map_cons, List.map_cons, decodeName_of_decodeTag ht, hr]
    · exact .failed

theorem nests_readCloseTag (content : List UInt8) : Nests names (r.readCloseTag content) := by
  unfold readCloseTag
  dsimp only
  split
  · exact .failed
  · rename_i top below ho
    split
    · exact .failed
    · rename_i he
      -- the name is the innermost one, byte for byte, and is decoded alike
      have same : endTagName content = top := by simpa using he
      rw [Inside, ho, List.map_cons] at hr
      obtain ⟨name, outer, rfl, hn, hb⟩ := List.map_eq_cons_iff.1 hr.symm
      rw [same, ← hn]
      exact .of_standing (namesBehind_endTag name outer []) hq hb.symm

theorem nests_readConstruct (construct : Construct) : Nests names (r.readConstruct construct) := by
  cases construct with
  | openTag content => exact nests_readOpenTag hq hr content
  | closeTag content => exact nests_readCloseTag hq hr content
  | cdata content =>
    unfold readConstruct
    dsimp only
    split
    · exact .of_standing rfl hq hr
    · exact .failed
  | ignored => exact .ignored hq hr

theorem nests_step : Nests names r.step := by
  unfold step
  split
  · exact nests_exhausted .ended
  · split
    · exact nests_readText hq hr
    · split
      · exact nests_readConstruct (r := r.movedBy _) hq hr _
      · exact .failed
      · exact nests_exhausted .failed
      · exact nests_exhausted .failed
      · exact .failed

end

/-! ## Pulls -/

/-- What one pull answers is well nested, and an end tag waits only behind a start tag. -/
structure Nested (names : List String) (event : Event) (after : Cursor) : Prop where
  opens : ∃ behind, namesBehind names [event] = some behind ∧ after.Opens behind
  waits : ∀ name, after.queuedEnd = some name → ∃ tag, event = .startTag tag ∧ tag.name = name

theorem nested_read {r after : Cursor} {names : List String} (hq : r.queuedEnd = none)
    (hr : r.Inside names) (h : r.read = (.ok (some event), after)) : Nested names event after := by
  fun_induction read r with
  | case1 r answered after' hs =>
    cases h
    have nests := nests_step hq hr
    rw [hs] at nests
    cases nests with
    | event hn ho hw => exact ⟨⟨_, hn, ho⟩, hw⟩
  | case2 => cases h
  | case3 => cases h
  | case4 r after' hs ih =>
    have nests := nests_step hq hr
    rw [hs] at nests
    cases nests with
    | ignored hq hr => exact ih hq hr h

theorem nested_next {r after : Cursor} (ho : r.Opens names)
    (h : EventStream.next r = (.ok (some event), after)) : Nested names event after := by
  cases ho with
  | standing hq hr =>
    have read : r.read = (.ok (some event), after) := by
      rw [← h]; show r.read = r.next; rw [next, hq]
    exact nested_read hq hr read
  | @waiting outer name hq hr =>
    have answered : r.next = (.ok (some (.endTag name)), { r with queuedEnd := none }) := by
      rw [next, hq]
    cases answered.symm.trans h
    exact ⟨⟨outer, namesBehind_endTag name outer [], .standing rfl hr⟩, nofun⟩

/-- Everything a cursor answers is well nested. -/
theorem opens_of_answers : ∀ {events : List Event} {r after : Cursor} {names : List String},
    r.Opens names → Answers r events after →
      ∃ behind, namesBehind names events = some behind ∧ after.Opens behind
  | [], _, _, names, ho, ha => by cases ha; exact ⟨names, rfl, ho⟩
  | event :: events, _, _, names, ho, ⟨_, hn, ha⟩ => by
    obtain ⟨between, hb, ho⟩ := (nested_next ho hn).opens
    obtain ⟨behind, he, ho⟩ := opens_of_answers ho ha
    refine ⟨behind, ?_, ho⟩
    rw [← List.singleton_append, namesBehind_append, hb]
    exact he

/-- An end tag waits behind its own start tag, and is answered next. -/
theorem waits_of_answers {events : List Event} {r after : Cursor} {name : String}
    (ho : r.Opens names) (hr : r.queuedEnd = none) (ha : Answers r events after)
    (hw : after.queuedEnd = some name) :
    ∃ earlier tag, events = earlier ++ [.startTag tag] ∧ tag.name = name ∧
      EventStream.next after = (.ok (some (.endTag name)), { after with queuedEnd := none }) := by
  rcases List.eq_nil_or_concat events with rfl | ⟨earlier, last, rfl⟩
  · cases ha
    rw [hr] at hw; cases hw
  · rw [List.concat_eq_append] at ha ⊢
    obtain ⟨between, hb, hl⟩ := (answers_append ..).1 ha
    obtain ⟨_, -, hi⟩ := opens_of_answers ho hb
    obtain ⟨tag, rfl, hn⟩ := (nested_next hi ((answers_singleton ..).1 hl)).waits name hw
    refine ⟨earlier, tag, rfl, hn, ?_⟩
    show after.next = _
    rw [next, hw]

end Cursor

end SubtreeHarvest.Markup

/-
A fragment read again. The text of a fragment is a document of its own: reading it answers the
events of the settled element and then the end, and extracting the element at its top gives the
same text back.
-/
import SubtreeHarvest.Proofs.Extract.Captured
import SubtreeHarvest.Proofs.Markup.Written
import SubtreeHarvest.Survey

namespace SubtreeHarvest

open EventStream Markup Text

namespace Element

/-- The element with everything inside it settled. -/
def settled (e : Element) : Element :=
  { e with inside := e.inside.settled }

/-- Names are plain and distinct, and no character data section holds its end mark. -/
def Writable (e : Element) : Prop :=
  e.tag.Writable ∧ e.inside.Writable

instance (e : Element) : Decidable e.Writable :=
  inferInstanceAs (Decidable (e.tag.Writable ∧ e.inside.Writable))

theorem fragment_settled (e : Element) : e.settled.fragment = e.fragment := by
  have inside := Forest.writtenAll_settled e.inside
  simp only [fragment, settled, events, Event.writtenAll, Event.writtenAll_append, inside]

/-- From the beginning of its fragment to the end the events of the settled element are read. -/
theorem answers_fragment (e : Element) (h : e.Writable) : ∃ p,
    Answers (Cursor.ofString e.fragment.text) e.settled.events (Cursor.standing p [] []) := by
  have alone : (Forest.element e.tag e.inside .empty).Writable := ⟨h.1, h.2, trivial⟩
  have nothing : Cursor.Bracketed [] := fun _ hb => nomatch hb
  have read : Cursor.Reads [] (Utf8.encode e.fragment.text ++ []) e.settled.events [] [] :=
    (Cursor.reads_forest _ "" alone nothing).of_prependText
  -- a fragment begins with a bracket, so there is no order mark to leave out
  have begins : Cursor.ofString e.fragment.text = Cursor.standing 0 [] (Utf8.encode e.fragment.text) := by
    have bracket : Utf8.encode e.fragment.text = Byte.less :: (e.tag.content ++ [Byte.greater] ++
        Utf8.encode (Event.writtenAll (e.inside.events ++ [.endTag e.tag.name]))) := by
      rw [fragment, events, Event.writtenAll, Utf8.encode_append, Tag.encode_written, List.cons_append]
    have other (more : List UInt8) : Byte.orderMark.isPrefixOf (Byte.less :: more) = false := rfl
    have none : Cursor.withoutOrderMark (Utf8.encode e.fragment.text) = Utf8.encode e.fragment.text := by
      rw [bracket, Cursor.withoutOrderMark, other, if_neg Bool.false_ne_true]
    rw [Cursor.ofString, Cursor.ofBytes, none, Cursor.standing]
  rw [begins]
  rw [List.append_nil] at read
  exact read 0

end Element

namespace Extraction

variable {σ : Type} [EventStream σ] {s s' : σ} {selector : Selector} {e : Element}

/-- A source that holds one element, which the selector captures, gives one fragment. -/
theorem extract_of_answers (ho : selector.chain.offer e.tag = .capture) (ha : Answers s e.events s')
    (he : EventStream.next s' = (.ok none, s')) : selector.extract .none s = [.ok e.fragment] := by
  have balanced := Event.depthBehind_forest 0 e.inside
  rw [Selector.extract, begin, Matcher.ofSelector,
    items_of_some (next_of_capture ho ha balanced (.inr (Limits.admits_none _))), items_end he rfl]
  rfl

end Extraction

namespace Element

/-- What a fragment holds can be read again: whichever selector captures the element writes the
same text, reading that text answers the events of the settled element and then the end, and the
element at its top is extracted as the same text. -/
theorem fragment_reread (e : Element) (h : e.Writable) :
    (∀ selector : Selector, selector.chain.offer e.tag = .capture →
      selector.extract .none (Feed.ofEvents e.events) = [.ok e.fragment]) ∧
    (∃ r, Answers (Cursor.ofString e.fragment.text) e.settled.events r ∧
      EventStream.next r = (.ok none, r)) ∧
    extractText e.fragment.text "/" .none = .ok [e.fragment] := by
  obtain ⟨p, answers⟩ := e.answers_fragment h
  have ended := Cursor.next_standing_nil p []
  refine ⟨?_, ⟨_, answers, ended⟩, ?_⟩
  · intro selector ho
    exact Extraction.extract_of_answers ho (Feed.answers_ofEvents e.events) rfl
  · have top : Selector.compile "/" = .ok ⟨"/", Chain.anyElement⟩ := rfl
    have items : Selector.extract ⟨"/", Chain.anyElement⟩ .none (Cursor.ofString e.fragment.text) =
        [.ok e.settled.fragment] :=
      Extraction.extract_of_answers (Chain.offer_anyElement _) answers ended
    rw [extractText, top]
    show allOrFirstFailure (Selector.extract _ _ _) = _
    rw [items, fragment_settled]
    rfl

/-- Texts side by side come back as one, trimmed, and quotes and marks come back as they were. -/
theorem fragment_reread_mixed :
    let inside : Forest := .text " 1 < " (.text "" (.text "&]]> " (.cdata " ]] " (.text " " .empty))))
    let e : Element := ⟨0, [], ⟨"a:b", [⟨"x", "'<é>' "⟩, ⟨"-", "&lt;"⟩]⟩, inside⟩
    e.Writable ∧ e.settled.inside = .text "1 <&]]>" (.cdata "]]" .empty) ∧
      extractText e.fragment.text "/" .none = .ok [e.fragment] := by
  intro inside e
  have h : e.Writable := by decide
  exact ⟨h, by decide, (fragment_reread e h).2.2⟩

end Element

end SubtreeHarvest

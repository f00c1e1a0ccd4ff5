/-
Forests: stretches of a document in which every element that begins also ends. A forest gives its
events in document order, and its elements with their places: the start tags around each and the
stretch of events that each takes up. Main facts: an element takes up exactly its own events, and
the elements inside it are those whose stretch lies in its own.
-/
import SubtreeHarvest.Extract.Matcher

namespace SubtreeHarvest

/-- Elements and texts side by side, each followed by what stands behind it. -/
inductive Forest
  | empty
  | element (tag : Tag) (inside behind : Forest)
  | text (content : String) (behind : Forest)
  | cdata (content : String) (behind : Forest)
  deriving DecidableEq

/-- An element and its place in a forest. -/
structure Element where
  /-- How many events of the forest come before its start tag. -/
  start : Nat
  /-- The start tags of the elements around it, the outermost first. -/
  above : List Tag
  tag : Tag
  inside : Forest
  deriving DecidableEq

/-- What a fragment writes for some events, one behind the other. -/
def Event.writtenAll : List Event → String
  | [] => ""
  | event :: events => event.written ++ writtenAll events

theorem Event.writtenAll_append : ∀ events more : List Event,
    writtenAll (events ++ more) = writtenAll events ++ writtenAll more
  | [], more => by simp [writtenAll]
  | event :: events, more => by
    rw [List.cons_append, writtenAll, writtenAll, writtenAll_append events more, String.append_assoc]

@[simp] theorem Event.writtenAll_singleton (event : Event) : writtenAll [event] = event.written := by
  simp [writtenAll]

namespace Forest

def events : Forest → List Event
  | .empty => []
  | .element tag inside behind =>
    .startTag tag :: (inside.events ++ .endTag tag.name :: behind.events)
  | .text content behind => .text content :: behind.events
  | .cdata content behind => .cdata content :: behind.events

/-- The elements, in document order, of a forest that has `start` events before it and the
elements `above` around it. -/
def elementsFrom (start : Nat) (above : List Tag) : Forest → List Element
  | .empty => []
  | .element tag inside behind =>
    ⟨start, above, tag, inside⟩ :: (inside.elementsFrom (start + 1) (above ++ [tag]) ++
      behind.elementsFrom (start + inside.events.length + 2) above)
  | .text _ behind => behind.elementsFrom (start + 1) above
  | .cdata _ behind => behind.elementsFrom (start + 1) above

/-- The elements of a forest that is a whole document, in document order. -/
def elements (forest : Forest) : List Element :=
  forest.elementsFrom 0 []

end Forest

namespace Element

def events (e : Element) : List Event :=
  .startTag e.tag :: (e.inside.events ++ [.endTag e.tag.name])

/-- How many events of the forest come before what stands behind the element. -/
def stop (e : Element) : Nat :=
  e.start + e.events.length

/-- The start tags down to the element, its own included. -/
def path (e : Element) : List Tag :=
  e.above ++ [e.tag]

/-- The element as a fragment. -/
def fragment (e : Element) : Fragment :=
  ⟨Event.writtenAll e.events⟩

/-- The element is `outer` or lies inside it. -/
def Within (e outer : Element) : Prop :=
  outer.start ≤ e.start ∧ e.stop ≤ outer.stop

theorem length_events (e : Element) : e.events.length = e.inside.events.length + 2 := by
  simp [events]

theorem stop_eq (e : Element) : e.stop = e.start + e.inside.events.length + 2 := by
  rw [stop, length_events]; omega

end Element

namespace Forest

/-! ## Places -/

/-- Every element has the elements around the forest around it, and takes up events of it. -/
theorem place_of_mem : ∀ {forest : Forest} {start : Nat} {above : List Tag} {e : Element},
    e ∈ forest.elementsFrom start above →
      above <+: e.above ∧ start ≤ e.start ∧ e.stop ≤ start + forest.events.length
  | .element tag inside behind, start, above, e, h => by
    simp only [elementsFrom, List.mem_cons, List.mem_append] at h
    simp only [events, List.length_cons, List.length_append]
    rcases h with rfl | h | h
    · exact ⟨List.prefix_refl _, Nat.le_refl _, by rw [Element.stop_eq]; simp only; omega⟩
    · obtain ⟨ha, hs, he⟩ := place_of_mem h
      exact ⟨(List.prefix_append _ _).trans ha, by omega, by omega⟩
    · obtain ⟨ha, hs, he⟩ := place_of_mem h
      exact ⟨ha, by omega, by omega⟩
  | .text content behind, start, above, e, h => by
    obtain ⟨ha, hs, he⟩ := @place_of_mem behind _ _ _ h
    simp only [events, List.length_cons]
    exact ⟨ha, by omega, by omega⟩
  | .cdata content behind, start, above, e, h => by
    obtain ⟨ha, hs, he⟩ := @place_of_mem behind _ _ _ h
    simp only [events, List.length_cons]
    exact ⟨ha, by omega, by omega⟩

/-- The events that an element takes up are its own. -/
theorem events_of_mem : ∀ {forest : Forest} {start : Nat} {above : List Tag} {e : Element},
    e ∈ forest.elementsFrom start above →
      ∃ before behind, forest.events = before ++ e.events ++ behind ∧
        start + before.length = e.start
  | .element tag inside behind, start, above, e, h => by
    simp only [elementsFrom, List.mem_cons, List.mem_append] at h
    rcases h with rfl | h | h
    · exact ⟨[], behind.events, by simp [events, Element.events], rfl⟩
    · obtain ⟨before, after, he, hl⟩ := events_of_mem h
      refine ⟨.startTag tag :: before, after ++ .endTag tag.name :: behind.events, ?_, ?_⟩
      · simp [events, he]
      · simp only [List.length_cons]; omega
    · obtain ⟨before, after, he, hl⟩ := events_of_mem h
      refine ⟨.startTag tag :: (inside.events ++ .endTag tag.name :: before), after, ?_, ?_⟩
      · simp [events, he]
      · simp only [List.length_cons, List.length_append]; omega
  | .text content behind, start, above, e, h => by
    obtain ⟨before, after, he, hl⟩ := @events_of_mem behind _ _ _ h
    refine ⟨.text content :: before, after, by simp [events, he], ?_⟩
    simp only [List.length_cons]; omega
  | .cdata content behind, start, above, e, h => by
    obtain ⟨before, after, he, hl⟩ := @events_of_mem behind _ _ _ h
    refine ⟨.cdata content :: before, after, by simp [events, he], ?_⟩
    simp only [List.length_cons]; omega

/-- Each tag on the way down to an element is the tag of an element around it, or of itself. -/
theorem exists_around : ∀ {forest : Forest} {start : Nat} {above a b : List Tag} {t : Tag}
    {e : Element}, e ∈ forest.elementsFrom start above → e.path = above ++ (a ++ t :: b) →
      ∃ outer ∈ forest.elementsFrom start above,
        outer.above = above ++ a ∧ outer.tag = t ∧ e.Within outer
  | .element tag inside behind, start, above, a, b, t, e, h, hp => by
    simp only [elementsFrom, List.mem_cons, List.mem_append] at h ⊢
    rcases h with rfl | h | h
    · have hp := List.append_cancel_left hp
      cases a with
      | nil =>
        cases hp
        exact ⟨_, .inl rfl, by simp, rfl, Nat.le_refl _, Nat.le_refl _⟩
      | cons c a => simp at hp
    · obtain ⟨⟨more, hm⟩, hs, he⟩ := place_of_mem h
      have hp' : tag :: (more ++ [e.tag]) = a ++ t :: b := by
        refine List.append_cancel_left (?_ : above ++ _ = above ++ _)
        rw [← hp, Element.path, ← hm]; simp
      cases a with
      | nil =>
        cases hp'
        refine ⟨_, .inl rfl, by simp, rfl, ?_, ?_⟩
        · simp only; omega
        · rw [Element.stop_eq ⟨start, above, tag, inside⟩]; simp only; omega
      | cons c a =>
        cases List.cons.inj hp' |>.1
        obtain ⟨outer, ho, ha, ht, hw⟩ := exists_around (a := a) (b := b) (t := t) h
          (by rw [hp]; simp)
        exact ⟨outer, .inr (.inl ho), by simp [ha], ht, hw⟩
    · obtain ⟨outer, ho, hr⟩ := exists_around h hp
      exact ⟨outer, .inr (.inr ho), hr⟩
  | .text _ behind, _, _, _, _, _, _, h, hp => @exists_around behind _ _ _ _ _ _ h hp
  | .cdata _ behind, _, _, _, _, _, _, h, hp => @exists_around behind _ _ _ _ _ _ h hp

end Forest

end SubtreeHarvest

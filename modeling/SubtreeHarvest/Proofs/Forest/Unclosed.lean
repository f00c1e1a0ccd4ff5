/-
Names of open elements. Behind some events stand the names of the elements that they leave open,
innermost first, unless an end tag among them closes no element or one of another name. Main
facts: with the end tags of the elements left open the events are those of a forest, and counting
the names is counting the elements that are open.
-/
import SubtreeHarvest.Proofs.Extract.Enclosed
import SubtreeHarvest.Proofs.Forest.Basic

namespace SubtreeHarvest

namespace Event

/-- The names of the elements open behind some events, with those in `names` open before them. -/
def namesBehind (names : List String) : List Event → Option (List String)
  | [] => some names
  | .startTag tag :: events => namesBehind (tag.name :: names) events
  | .endTag name :: events =>
    match names with
    | [] => none
    | top :: below => if name = top then namesBehind below events else none
  | .text _ :: events => namesBehind names events
  | .cdata _ :: events => namesBehind names events

theorem namesBehind_endTag (name : String) (below : List String) (events : List Event) :
    namesBehind (name :: below) (.endTag name :: events) = namesBehind below events :=
  if_pos rfl

/-- An end tag behind which there are names closes the innermost element. -/
theorem namesBehind_endTag_eq_some {names behind : List String} {name : String} {events : List Event}
    (h : namesBehind names (.endTag name :: events) = some behind) :
    ∃ below, names = name :: below ∧ namesBehind below events = some behind := by
  cases names with
  | nil => cases h
  | cons top below =>
    by_cases he : name = top
    · subst he
      exact ⟨below, rfl, namesBehind_endTag name below events ▸ h⟩
    · rw [namesBehind, if_neg he] at h
      cases h

theorem namesBehind_append : ∀ (names : List String) (events more : List Event),
    namesBehind names (events ++ more) =
      (namesBehind names events).bind fun behind => namesBehind behind more
  | _, [], _ => rfl
  | names, .startTag tag :: events, more => namesBehind_append (tag.name :: names) events more
  | [], .endTag _ :: _, _ => rfl
  | top :: below, .endTag name :: events, more => by
    rw [List.cons_append, namesBehind, namesBehind]
    by_cases he : name = top
    · rw [if_pos he, if_pos he]
      exact namesBehind_append below events more
    · rw [if_neg he, if_neg he]; rfl
  | names, .text _ :: events, more => namesBehind_append names events more
  | names, .cdata _ :: events, more => namesBehind_append names events more

/-- The number of names is the number of open elements. -/
theorem depthBehind_of_namesBehind : ∀ {events : List Event} {names behind : List String},
    namesBehind names events = some behind →
      depthBehind names.length events = some behind.length
  | [], _, _, h => by cases h; rfl
  | .startTag _ :: events, _, _, h => @depthBehind_of_namesBehind events _ _ h
  | .endTag name :: events, names, _, h => by
    obtain ⟨below, rfl, hb⟩ := namesBehind_endTag_eq_some h
    exact @depthBehind_of_namesBehind events _ _ hb
  | .text _ :: events, _, _, h => @depthBehind_of_namesBehind events _ _ h
  | .cdata _ :: events, _, _, h => @depthBehind_of_namesBehind events _ _ h

end Event

namespace Forest

open Event

/-- The events close the elements of the given names one after the other, with whole forests
around the end tags. -/
def Closes : List String → List Event → Prop
  | [], events => ∃ forest : Forest, forest.events = events
  | name :: names, events => ∃ (forest : Forest) (more : List Event),
    events = forest.events ++ .endTag name :: more ∧ Closes names more

/-- What can stand in front of any forest can stand in front of the first one here. -/
theorem Closes.front (put : Forest → Forest) (front : List Event)
    (hp : ∀ forest, (put forest).events = front ++ forest.events) :
    ∀ {names : List String} {events : List Event}, Closes names events → Closes names (front ++ events)
  | [], _, ⟨forest, he⟩ => ⟨put forest, by rw [hp, he]⟩
  | _ :: _, _, ⟨forest, more, he, hc⟩ => ⟨put forest, more, by rw [he, hp, List.append_assoc], hc⟩

/-- The end tags of the elements left open close, behind the events, those open before them. -/
theorem closes_of_namesBehind : ∀ {events : List Event} {names behind : List String},
    namesBehind names events = some behind → Closes names (events ++ behind.map .endTag)
  | [], [], _, h => by cases h; exact ⟨.empty, rfl⟩
  | [], name :: names, _, h => by
    cases h
    exact ⟨.empty, names.map .endTag, rfl, @closes_of_namesBehind [] _ _ rfl⟩
  | .startTag tag :: events, _, _, h => by
    obtain ⟨inside, more, he, hc⟩ := @closes_of_namesBehind events _ _ h
    -- the element stands in front of what comes behind its end tag
    have front : ∀ forest : Forest, (element tag inside forest).events =
        .startTag tag :: (inside.events ++ [.endTag tag.name]) ++ forest.events := by
      simp [Forest.events]
    rw [List.cons_append, he]
    simpa using hc.front (element tag inside) _ front
  | .endTag name :: events, _, behind, h => by
    obtain ⟨below, rfl, hb⟩ := namesBehind_endTag_eq_some h
    exact ⟨.empty, events ++ behind.map .endTag, rfl, closes_of_namesBehind hb⟩
  | .text content :: events, _, _, h =>
    (@closes_of_namesBehind events _ _ h).front (.text content) [.text content] fun _ => rfl
  | .cdata content :: events, _, _, h =>
    (@closes_of_namesBehind events _ _ h).front (.cdata content) [.cdata content] fun _ => rfl

/-- With the end tags of the elements left open the events are those of a forest. -/
theorem exists_of_namesBehind {events : List Event} {names : List String}
    (h : namesBehind [] events = some names) :
    ∃ forest : Forest, forest.events = events ++ names.map .endTag :=
  closes_of_namesBehind h

end Forest

end SubtreeHarvest

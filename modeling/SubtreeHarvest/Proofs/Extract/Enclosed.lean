/-
Passing over what one element holds. Inside an element that is skipped or captured the matcher
counts the elements still open; `depthBehind` is that count, and none once the element itself is
closed. A skipped element is passed over whatever it holds. A captured one is written event by
event as long as the text so far is within the limit on its size; the end tag that closes it is
written without a look at the limit.
-/
import SubtreeHarvest.Proofs.Extract.Items
import SubtreeHarvest.Proofs.Forest.Basic
import SubtreeHarvest.Proofs.Stream

namespace SubtreeHarvest

/-- How many elements are open behind some events with `depth` open before them; none if an end
tag among them closes one more. -/
def Event.depthBehind (depth : Nat) : List Event → Option Nat
  | [] => some depth
  | .startTag _ :: events => depthBehind (depth + 1) events
  | .endTag _ :: events =>
    match depth with
    | 0 => none
    | depth + 1 => depthBehind depth events
  | .text _ :: events => depthBehind depth events
  | .cdata _ :: events => depthBehind depth events

/-- The size of a text is within the limit, or there is none. -/
def Limits.Admits (limits : Limits) (text : String) : Prop :=
  limits.maxSize = 0 ∨ text.utf8ByteSize ≤ limits.maxSize

namespace Limits

theorem admits_none (text : String) : Limits.none.Admits text := .inl rfl

theorem Admits.left {limits : Limits} {text more : String} (h : limits.Admits (text ++ more)) :
    limits.Admits text := by
  rcases h with h | h
  · exact .inl h
  · rw [String.utf8ByteSize_append] at h; exact .inr (by omega)

end Limits

/-! ## Depth -/

namespace Event

theorem depthBehind_append : ∀ (depth : Nat) (events more : List Event),
    depthBehind depth (events ++ more) =
      (depthBehind depth events).bind fun behind => depthBehind behind more
  | _, [], _ => rfl
  | depth, .startTag _ :: events, more => depthBehind_append (depth + 1) events more
  | 0, .endTag _ :: _, _ => rfl
  | depth + 1, .endTag _ :: events, more => depthBehind_append depth events more
  | depth, .text _ :: events, more => depthBehind_append depth events more
  | depth, .cdata _ :: events, more => depthBehind_append depth events more

/-- The elements of a forest are all closed behind it. -/
theorem depthBehind_forest : ∀ (depth : Nat) (forest : Forest),
    depthBehind depth forest.events = some depth
  | _, .empty => rfl
  | depth, .element tag inside behind => by
    rw [Forest.events, depthBehind, depthBehind_append, depthBehind_forest (depth + 1) inside]
    exact depthBehind_forest depth behind
  | depth, .text _ behind => depthBehind_forest depth behind
  | depth, .cdata _ behind => depthBehind_forest depth behind

/-- The one event that closes more elements than are open. -/
theorem depthBehind_eq_none {depth : Nat} : ∀ {event : Event},
    depthBehind depth [event] = none → depth = 0 ∧ ∃ name, event = .endTag name
  | .endTag name, h => by
    cases depth with
    | zero => exact ⟨rfl, name, rfl⟩
    | succ depth => cases h

end Event

/-! ## Inside a skipped element -/

namespace Matcher

theorem grow_eq_goesOn {limits : Limits} {written : String} (h : limits.Admits written)
    (m : Matcher) (depth : Nat) :
    m.grow limits depth written = .goesOn { m with activity := .capturing depth written } := by
  rcases h with h | h
  · rw [grow, if_neg (by omega)]
  · rw [grow, if_neg (by omega)]

theorem grow_eq_exceeds {limits : Limits} {written : String} (h : ¬ limits.Admits written)
    (m : Matcher) (depth : Nat) :
    m.grow limits depth written = .exceeds (.sizeExceeded limits.maxSize) := by
  rw [Limits.Admits, not_or] at h
  rw [grow, if_pos (by omega)]

/-- A skipped element leaves only its depth behind each event. -/
theorem consume_skipping {limits : Limits} {depth behind : Nat} {event : Event}
    (h : Event.depthBehind depth [event] = some behind) (frames : List Chain) :
    consume limits ⟨frames, .skipping depth⟩ event = .goesOn ⟨frames, .skipping behind⟩ := by
  cases event with
  | startTag tag => cases h; rfl
  | endTag name =>
    cases depth with
    | zero => cases h
    | succ depth => cases h; rfl
  | text content => cases h; rfl
  | cdata content => cases h; rfl

/-- More of a captured element is written, whatever the event is. -/
theorem consume_capturing {limits : Limits} {depth behind : Nat} {event : Event}
    (h : Event.depthBehind depth [event] = some behind) (frames : List Chain) (written : String) :
    consume limits ⟨frames, .capturing depth written⟩ event =
      grow limits ⟨frames, .capturing depth written⟩ behind (written ++ event.written) := by
  cases event with
  | startTag tag => cases h; rfl
  | endTag name =>
    cases depth with
    | zero => cases h
    | succ depth => cases h; rfl
  | text content => cases h; rfl
  | cdata content => cases h; rfl

end Matcher

namespace Extraction

open EventStream Event

variable {σ : Type} [EventStream σ] {s s' : σ} {limits : Limits} {n : Nat} {frames : List Chain}

theorem depthBehind_cons {depth behind : Nat} {event : Event} {events : List Event}
    (h : depthBehind depth (event :: events) = some behind) :
    ∃ d, depthBehind depth [event] = some d ∧ depthBehind d events = some behind := by
  rw [← List.singleton_append, depthBehind_append] at h
  exact Option.bind_eq_some_iff.1 h

theorem next_skipping : ∀ {events : List Event} {s : σ} {depth behind : Nat},
    Answers s events s' → depthBehind depth events = some behind →
      next ⟨s, ⟨frames, .skipping depth⟩, limits, n, false⟩ =
        next ⟨s', ⟨frames, .skipping behind⟩, limits, n, false⟩
  | [], _, _, _, ha, hd => by cases ha; cases hd; rfl
  | event :: events, s, depth, behind, ⟨s₁, hn, ha⟩, hd => by
    obtain ⟨d, h₁, h₂⟩ := depthBehind_cons hd
    rw [next_goesOn hn (Matcher.consume_skipping h₁ frames), next_skipping ha h₂]

/-! ## Inside a captured element -/

/-- What is within the limit is written on. -/
theorem next_capturing : ∀ {events : List Event} {s : σ} {depth behind : Nat} {written : String},
    Answers s events s' → depthBehind depth events = some behind →
      events = [] ∨ limits.Admits (written ++ writtenAll events) →
      next ⟨s, ⟨frames, .capturing depth written⟩, limits, n, false⟩ =
        next ⟨s', ⟨frames, .capturing behind (written ++ writtenAll events)⟩, limits, n, false⟩
  | [], _, _, _, written, ha, hd, _ => by cases ha; cases hd; simp [writtenAll]
  | event :: events, s, depth, behind, written, ⟨s₁, hn, ha⟩, hd, hs => by
    obtain ⟨d, h₁, h₂⟩ := depthBehind_cons hd
    have hs : limits.Admits ((written ++ event.written) ++ writtenAll events) := by
      simpa [writtenAll, String.append_assoc] using hs
    have hc := @Matcher.consume_capturing limits _ _ _ h₁ frames written
    rw [Matcher.grow_eq_goesOn hs.left] at hc
    rw [next_goesOn hn hc, next_capturing ha h₂ (.inr hs), writtenAll, String.append_assoc]

/-- What goes past the limit ends the extraction. -/
theorem next_capturing_exceeds : ∀ {events : List Event} {s : σ} {depth behind : Nat}
    {written : String}, Answers s events s' → depthBehind depth events = some behind →
      events ≠ [] → ¬ limits.Admits (written ++ writtenAll events) →
      ∃ (s₁ : σ) (m : Matcher),
        next ⟨s, ⟨frames, .capturing depth written⟩, limits, n, false⟩ =
          (some (.error (seenBy s₁ (.ofKind (.sizeExceeded limits.maxSize)))),
            ⟨s₁, m, limits, n, true⟩)
  | [], _, _, _, _, _, _, he, _ => absurd rfl he
  | event :: events, s, depth, behind, written, ⟨s₁, hn, ha⟩, hd, _, hs => by
    obtain ⟨d, h₁, h₂⟩ := depthBehind_cons hd
    have hc := @Matcher.consume_capturing limits _ _ _ h₁ frames written
    rw [writtenAll, ← String.append_assoc] at hs
    by_cases hw : limits.Admits (written ++ event.written)
    · -- the text so far is still within the limit, so more events are to come
      have he : events ≠ [] := by
        rintro rfl
        exact hs (by simpa [writtenAll] using hw)
      rw [Matcher.grow_eq_goesOn hw] at hc
      rw [next_goesOn hn hc]
      exact next_capturing_exceeds ha h₂ he hs
    · rw [Matcher.grow_eq_exceeds hw] at hc
      exact ⟨s₁, _, next_exceeds hn hc⟩

end Extraction

end SubtreeHarvest

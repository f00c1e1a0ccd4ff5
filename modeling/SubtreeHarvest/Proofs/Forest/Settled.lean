/-
What of a forest its fragment keeps. A settled forest has its contents trimmed, texts that stand
side by side joined, and empty texts left out; a fragment writes a forest and the settled forest
alike, because trimmed stretches set side by side have nothing left to trim.
-/
import Mathlib.Data.List.Infix
import SubtreeHarvest.Proofs.Forest.Basic
import SubtreeHarvest.Proofs.Markup.Tag
import SubtreeHarvest.Proofs.Text.Trimmed

namespace SubtreeHarvest

open Text Markup Event

namespace Forest

/-- The forest with a text in front of it, joined to a text that it begins with. -/
def prependText (s : String) : Forest → Forest
  | .text content behind => .text (s ++ content) behind
  | forest => if s = "" then forest else .text s forest

/-- The forest with every content trimmed, texts side by side joined, and empty ones left out. -/
def settled : Forest → Forest
  | .empty => .empty
  | .element tag inside behind => .element tag inside.settled behind.settled
  | .text content behind => behind.settled.prependText (trim content)
  | .cdata content behind => .cdata (trim content) behind.settled

/-- Tags are writable, and no character data section holds the mark that ends one. -/
def Writable : Forest → Prop
  | .empty => True
  | .element tag inside behind => tag.Writable ∧ inside.Writable ∧ behind.Writable
  | .text _ behind => behind.Writable
  | .cdata content behind => ¬ "]]>".toList <:+: content.toList ∧ behind.Writable

instance decidableWritable : ∀ forest : Forest, Decidable forest.Writable
  | .empty => isTrue trivial
  | .element tag inside behind =>
    have := decidableWritable inside
    have := decidableWritable behind
    inferInstanceAs (Decidable (tag.Writable ∧ inside.Writable ∧ behind.Writable))
  | .text _ behind => decidableWritable behind
  | .cdata content behind =>
    have := decidableWritable behind
    inferInstanceAs (Decidable (¬ "]]>".toList <:+: content.toList ∧ behind.Writable))

/-! ## Joining -/

theorem prependText_prependText (s t : String) : ∀ forest : Forest,
    prependText s (prependText t forest) = prependText (s ++ t) forest
  | .text content behind => by
    rw [prependText, prependText, prependText, String.append_assoc]
  | .empty | .element .. | .cdata .. => by
    by_cases ht : t = ""
    · simp only [prependText, ht, if_true, String.append_empty]
    · have hst : ¬ s ++ t = "" := fun h => ht (String.append_eq_empty_iff.1 h).2
      simp only [prependText, if_neg ht, if_neg hst]

theorem prependText_empty : ∀ forest : Forest, prependText "" forest = forest
  | .text content behind => by rw [prependText, String.empty_append]
  | .empty | .element .. | .cdata .. => by simp only [prependText, if_true]

/-- The event of a text, unless the text is empty. -/
def textEvents (s : String) : List Event :=
  if s = "" then [] else [.text s]

/-- A text in front of anything but a text is an event of its own. -/
theorem events_prependText (s : String) {forest : Forest}
    (h : ∀ content behind, forest ≠ .text content behind) :
    (forest.prependText s).events = textEvents s ++ forest.events := by
  have apart : forest.prependText s = if s = "" then forest else .text s forest := by
    cases forest with
    | text content behind => exact absurd rfl (h content behind)
    | empty | element | cdata => rfl
  rw [apart, textEvents]
  split <;> rfl

/-! ## Writing -/

theorem toList_trim (s : String) : (trim s).toList = trimmed s.toList := by
  rw [trim, String.toList_ofList]

theorem written_text {s : String} (h : Tight s.toList) :
    (Event.text s).written = String.ofList (s.toList.flatMap textEscape) := by
  rw [Event.written, h.trimmed_eq]

theorem writtenAll_textEvents {s : String} (h : Tight s.toList) :
    writtenAll (textEvents s) = String.ofList (s.toList.flatMap textEscape) := by
  unfold textEvents
  split
  · rename_i hs
    rw [hs]; rfl
  · rw [writtenAll_singleton, written_text h]

/-- Forests that are written alike behind a text are written alike without one. -/
theorem writtenAll_of_prependText {forest other : Forest}
    (h : writtenAll (forest.prependText "").events =
      String.ofList ("".toList.flatMap textEscape) ++ writtenAll other.events) :
    writtenAll forest.events = writtenAll other.events := by
  rw [prependText_empty] at h
  rw [h]
  exact String.empty_append

/-- Joined texts are written like the texts they are joined of. -/
theorem writtenAll_prependText : ∀ (forest : Forest) {s : String}, Tight s.toList →
    writtenAll (forest.settled.prependText s).events =
      String.ofList (s.toList.flatMap textEscape) ++ writtenAll forest.events
  | .empty, s, hs => by
    rw [settled, events_prependText s (fun _ _ => Forest.noConfusion), writtenAll_append,
      writtenAll_textEvents hs]
  | .element tag inside behind, s, hs => by
    have inner := writtenAll_of_prependText (writtenAll_prependText inside (s := "") tight_nil)
    have after := writtenAll_of_prependText (writtenAll_prependText behind (s := "") tight_nil)
    rw [settled, events_prependText s (fun _ _ => Forest.noConfusion), writtenAll_append,
      writtenAll_textEvents hs]
    simp only [events, writtenAll, writtenAll_append, inner, after]
  | .text content behind, s, hs => by
    -- the text in front takes in the trimmed text and stays tight
    have both : Tight (s ++ trim content).toList := by
      rw [String.toList_append, toList_trim]
      exact hs.append (tight_trimmed _)
    rw [settled, prependText_prependText, writtenAll_prependText behind both, events, writtenAll,
      Event.written, String.toList_append, toList_trim, List.flatMap_append, String.ofList_append,
      String.append_assoc]
  | .cdata content behind, s, hs => by
    have after := writtenAll_of_prependText (writtenAll_prependText behind (s := "") tight_nil)
    rw [settled, events_prependText s (fun _ _ => Forest.noConfusion), writtenAll_append,
      writtenAll_textEvents hs]
    simp only [events, writtenAll, Event.written, trim_trim, after]

/-- A fragment writes a settled forest as it writes the forest. -/
theorem writtenAll_settled (forest : Forest) :
    writtenAll forest.settled.events = writtenAll forest.events :=
  writtenAll_of_prependText (writtenAll_prependText forest tight_nil)

end Forest

end SubtreeHarvest

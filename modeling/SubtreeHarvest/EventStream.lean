/-
Events and streams of them. A document read from front to back is a sequence of start tags, end tags
and stretches of text, with character data sections told apart from other text. A stream answers one
event a pull, then the end or a failure, and can say how far it has come in the document behind it.
-/
import SubtreeHarvest.Failure

namespace SubtreeHarvest

/-! ## Events -/

structure Attribute where
  name : String
  value : String
  deriving DecidableEq

/-- A start tag, with its attributes in the order of the document. -/
structure Tag where
  name : String
  attributes : List Attribute
  deriving DecidableEq

inductive Event
  | startTag (tag : Tag)
  | endTag (name : String)
  | text (content : String)
  | cdata (content : String)
  deriving DecidableEq

/-! ## Streams -/

/-- A stream of events. Every stream is finite: each event that it answers leaves less behind, so whatever
goes on until the stream ends comes to an end. What is said of single calls loses nothing by this: a call
that returns has read finitely many events, and so is a call over the stream of just these. -/
class EventStream (σ : Type) where
  /-- One pull: an event, `none` at the end, or a failure, and the stream afterwards. -/
  next : σ → Except Failure (Option Event) × σ
  /-- The byte offset the stream has come to, where there is a document to count in. -/
  position : σ → Option Nat
  /-- A bound on the events still to come. -/
  remaining : σ → Nat
  remaining_next : ∀ {s s' : σ} {e : Event}, next s = (.ok (some e), s') →
    remaining s' < remaining s

/-! ## Ready-made events -/

/-- Events given beforehand, and the failure they end in, if any. -/
structure Feed where
  events : List Event
  failure : Option Failure

namespace Feed

def ofEvents (events : List Event) : Feed :=
  ⟨events, none⟩

/-- A failure is answered once; after it comes the end. -/
def next : Feed → Except Failure (Option Event) × Feed
  | ⟨event :: rest, failure⟩ => (.ok (some event), ⟨rest, failure⟩)
  | ⟨[], some failure⟩ => (.error failure, ⟨[], none⟩)
  | ⟨[], none⟩ => (.ok none, ⟨[], none⟩)

theorem length_next {s s' : Feed} {e : Event} (h : s.next = (.ok (some e), s')) :
    s'.events.length < s.events.length := by
  obtain ⟨events, failure⟩ := s
  cases events with
  | nil => cases failure <;> simp [next] at h
  | cons event rest => simp only [next, Prod.mk.injEq] at h; rw [← h.2]; simp

instance : EventStream Feed where
  next := Feed.next
  position _ := none
  remaining s := s.events.length
  remaining_next := length_next

end Feed

end SubtreeHarvest

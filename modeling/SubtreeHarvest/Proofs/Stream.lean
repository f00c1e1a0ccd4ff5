/-
What a stream answers: `Answers s events s'` says that pulling at `s` gives the events one after
the other and leaves the stream at `s'`. A feed answers the events it was made of.

A stream can be pulled on past its end and its failures too. Two streams agree if they answer the same
events and then both end, or both fail for the same reason; where they fail may differ, since not every
stream counts bytes and bytes may stand between events.
-/
import SubtreeHarvest.EventStream

namespace SubtreeHarvest

/-! ## Answers -/

namespace EventStream

variable {σ : Type} [EventStream σ]

/-- Pulling at `s` answers the events one by one and leaves the stream at `s'`. -/
def Answers : σ → List Event → σ → Prop
  | s, [], s' => s = s'
  | s, event :: events, s' =>
    ∃ s₁, EventStream.next s = (.ok (some event), s₁) ∧ Answers s₁ events s'

@[simp] theorem answers_nil (s s' : σ) : Answers s [] s' ↔ s = s' := Iff.rfl

theorem answers_cons (s s' : σ) (event : Event) (events : List Event) :
    Answers s (event :: events) s' ↔
      ∃ s₁, EventStream.next s = (.ok (some event), s₁) ∧ Answers s₁ events s' := Iff.rfl

theorem answers_append : ∀ (s s' : σ) (events more : List Event),
    Answers s (events ++ more) s' ↔ ∃ s₁, Answers s events s₁ ∧ Answers s₁ more s'
  | s, s', [], more => by simp
  | s, s', event :: events, more => by
    simp only [List.cons_append, answers_cons, answers_append _ s' events more]
    constructor
    · rintro ⟨s₁, h, s₂, h₁, h₂⟩; exact ⟨s₂, ⟨s₁, h, h₁⟩, h₂⟩
    · rintro ⟨s₂, ⟨s₁, h, h₁⟩, h₂⟩; exact ⟨s₁, h, s₂, h₁, h₂⟩

theorem answers_singleton (s s' : σ) (event : Event) :
    Answers s [event] s' ↔ EventStream.next s = (.ok (some event), s') := by
  simp [answers_cons]

/-- The stream behind some events is determined by them. -/
theorem answers_unique : ∀ {s s₁ s₂ : σ} {events : List Event},
    Answers s events s₁ → Answers s events s₂ → s₁ = s₂
  | _, _, _, [], h₁, h₂ => h₁.symm.trans h₂
  | _, _, _, _ :: _, ⟨a, ha, h₁⟩, ⟨b, hb, h₂⟩ => by
    cases (Prod.mk.inj (ha.symm.trans hb)).2
    exact answers_unique h₁ h₂

end EventStream

namespace Feed

open EventStream

theorem answers (failure : Option Failure) : ∀ events rest : List Event,
    Answers (⟨events ++ rest, failure⟩ : Feed) events ⟨rest, failure⟩
  | [], _ => rfl
  | _ :: events, rest => ⟨_, rfl, answers failure events rest⟩

/-- A feed without a failure answers all of its events. -/
theorem answers_ofEvents (events : List Event) : Answers (ofEvents events) events (ofEvents []) := by
  simpa [ofEvents] using answers none events []

end Feed

/-! ## Pulls -/

/-- The failure without its place. -/
def Failure.unplaced (failure : Failure) : Failure :=
  { failure with position := none }

namespace EventStream

variable {σ τ : Type} [EventStream σ] [EventStream τ]

/-- The stream behind its first `k` pulls. -/
def pulled (s : σ) : Nat → σ
  | 0 => s
  | k + 1 => pulled (EventStream.next s).2 k

/-- What pull number `k` answers, counted from zero. -/
def answer (s : σ) (k : Nat) : Except Failure (Option Event) :=
  (EventStream.next (pulled s k)).1

theorem pulled_add : ∀ (s : σ) (k j : Nat), pulled s (k + j) = pulled (pulled s k) j
  | s, 0, j => by rw [Nat.zero_add, pulled]
  | s, k + 1, j => by rw [Nat.add_right_comm, pulled, pulled, pulled_add _ k j]

theorem pulled_succ (s : σ) (k : Nat) : pulled s (k + 1) = (EventStream.next (pulled s k)).2 :=
  pulled_add s k 1

theorem answer_add (s : σ) (k j : Nat) : answer s (k + j) = answer (pulled s k) j := by
  rw [answer, answer, pulled_add]

/-- Streams whose next pulls are alike are alike on every pull. -/
theorem answer_congr {s t : σ} (h : EventStream.next s = EventStream.next t) :
    ∀ k, answer s k = answer t k
  | 0 => congrArg Prod.fst h
  | k + 1 => by rw [answer, answer, pulled, pulled, h]

/-- A stream that a pull leaves as it is answers the same on every pull. -/
theorem answer_of_still {s : σ} {a : Except Failure (Option Event)}
    (h : EventStream.next s = (a, s)) : ∀ k, pulled s k = s ∧ answer s k = a
  | 0 => ⟨rfl, congrArg Prod.fst h⟩
  | k + 1 => by
    rw [answer, pulled, h]
    exact answer_of_still h k

/-- Streams that answer the same events first, and then the same but for the places of failures, answer
the same but for these. -/
theorem unplaced_answer_of_answers : ∀ {events : List Event} {s s' : σ} {t t' : τ},
    Answers s events s' → Answers t events t' →
      (∀ k, (answer s' k).mapError Failure.unplaced = (answer t' k).mapError Failure.unplaced) →
        ∀ k, (answer s k).mapError Failure.unplaced = (answer t k).mapError Failure.unplaced
  | [], _, _, _, _, rfl, rfl, h, k => h k
  | _ :: _, _, _, _, _, ⟨_, hs, _⟩, ⟨_, ht, _⟩, _, 0 => by
    rw [answer, answer, pulled, pulled, hs, ht]
  | _ :: _, _, _, _, _, ⟨_, hs, ha⟩, ⟨_, ht, hb⟩, h, k + 1 => by
    rw [answer, answer, pulled, pulled, hs, ht]
    exact unplaced_answer_of_answers ha hb h k

/-! ## Agreeing streams -/

/-- The streams answer the same events one by one, and then both end, or both fail with the same
failure but for its place. -/
inductive Agrees : σ → τ → Prop
  | event {s s₁ : σ} {t t₁ : τ} {event : Event} : EventStream.next s = (.ok (some event), s₁) →
      EventStream.next t = (.ok (some event), t₁) → Agrees s₁ t₁ → Agrees s t
  | ended {s s₁ : σ} {t t₁ : τ} : EventStream.next s = (.ok none, s₁) →
      EventStream.next t = (.ok none, t₁) → Agrees s t
  | failed {s s₁ : σ} {t t₁ : τ} {failure other : Failure} :
      EventStream.next s = (.error failure, s₁) → EventStream.next t = (.error other, t₁) →
      failure.unplaced = other.unplaced → Agrees s t

/-- Streams that are alike on every pull, but for the places of failures, agree. -/
theorem agrees_of_answer {s : σ} {t : τ}
    (h : ∀ k, (answer s k).mapError Failure.unplaced = (answer t k).mapError Failure.unplaced) :
    Agrees s t := by
  -- every event leaves less of the stream
  induction hr : EventStream.remaining s using Nat.strongRecOn generalizing s t with
  | ind r ih =>
    have first : (EventStream.next s).1.mapError Failure.unplaced =
        (EventStream.next t).1.mapError Failure.unplaced := h 0
    rcases hs : EventStream.next s with ⟨failure | _ | event, s₁⟩ <;>
      rcases ht : EventStream.next t with ⟨other | _ | event', t₁⟩ <;>
      rw [hs, ht] at first <;> try (cases first; done)
    · injection first with same
      exact .failed hs ht same
    · exact .ended hs ht
    · cases first
      refine .event hs ht (ih _ (hr ▸ EventStream.remaining_next hs) (fun k => ?_) rfl)
      have later := h (k + 1)
      rw [answer, answer, pulled, pulled, hs, ht] at later
      exact later

/-- A stream that answers some events and then ends agrees with these events made ready. -/
theorem agrees_ofEvents : ∀ {events : List Event} {s behind last : σ}, Answers s events behind →
    EventStream.next behind = (.ok none, last) → Agrees s (Feed.ofEvents events)
  | [], _, _, _, ha, hl => by
    cases ha
    exact .ended hl rfl
  | _ :: _, _, _, _, ⟨_, hn, ha⟩, hl => .event hn rfl (agrees_ofEvents ha hl)

end EventStream

end SubtreeHarvest

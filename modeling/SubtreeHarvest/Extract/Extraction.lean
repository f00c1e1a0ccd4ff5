/-
Extraction: the elements a selector looks for, one at a time, from a source that is read only as
far as the next of them. The extraction is over after the first failure and at the end of the
source; until then its source can be taken back where it stands.
-/
import SubtreeHarvest.EventStream
import SubtreeHarvest.Extract.Matcher

namespace SubtreeHarvest

structure Extraction (σ : Type) where
  source : σ
  matcher : Matcher
  limits : Limits
  /-- How many fragments have been answered. -/
  emitted : Nat
  finished : Bool

namespace Extraction

variable {σ : Type}

def begin (selector : Selector) (limits : Limits) (source : σ) : Extraction σ :=
  ⟨source, .ofSelector selector, limits, 0, false⟩

/-- How many open elements are descended into. -/
def depth (x : Extraction σ) : Nat :=
  x.matcher.depth

variable [EventStream σ]

/-- A failure at the place the source has come to. -/
def seenBy (source : σ) (failure : Failure) : Failure :=
  match EventStream.position source with
  | some position => failure.seenAt position
  | none => failure

/-- Reads on up to the next fragment, the end or a failure. -/
def pull (x : Extraction σ) : Option (Except Failure Fragment) × Extraction σ :=
  match _h : EventStream.next x.source with
  | (.error failure, source) => (some (.error failure), { x with source, finished := true })
  | (.ok none, source) =>
    match x.matcher.truncation? with
    | none => (none, { x with source, finished := true })
    | some message =>
      (some (.error (seenBy source (.saying .inputCutShort message))),
        { x with source, finished := true })
  | (.ok (some event), source) =>
    match x.matcher.consume x.limits event with
    | .goesOn matcher => pull { x with source, matcher }
    | .fragment fragment matcher =>
      (some (.ok fragment), { x with source, matcher, emitted := x.emitted + 1 })
    | .leaves matcher => (none, { x with source, matcher, finished := true })
    | .exceeds kind =>
      (some (.error (seenBy source (.ofKind kind))), { x with source, finished := true })
termination_by EventStream.remaining x.source
decreasing_by exact EventStream.remaining_next _h

/-- The next item, if there is one. -/
def next (x : Extraction σ) : Option (Except Failure Fragment) × Extraction σ :=
  if x.finished then (none, x) else x.pull

theorem remaining_pull {x x' : Extraction σ} {item : Except Failure Fragment}
    (h : x.pull = (some item, x')) : x'.finished = true ∨
      EventStream.remaining x'.source < EventStream.remaining x.source := by
  fun_induction pull x with
  | case1 => cases h; exact .inl rfl
  | case2 => cases h
  | case3 => cases h; exact .inl rfl
  | case4 x event source hn matcher hc ih =>
    exact (ih h).imp_right fun lt => Nat.lt_trans lt (EventStream.remaining_next hn)
  | case5 x event source hn fragment matcher hc =>
    cases h; exact .inr (EventStream.remaining_next hn)
  | case6 => cases h
  | case7 => cases h; exact .inl rfl

/-- A bound on the items still to come. -/
def bound (x : Extraction σ) : Nat :=
  if x.finished then 0 else EventStream.remaining x.source + 1

theorem bound_next {x x' : Extraction σ} {item : Except Failure Fragment}
    (h : x.next = (some item, x')) : x'.bound < x.bound := by
  unfold next at h
  unfold bound
  split at h
  · cases h
  · rename_i hf
    rcases remaining_pull h with h' | h' <;> split <;> simp_all

/-- All the items still to come. -/
def items (x : Extraction σ) : List (Except Failure Fragment) :=
  match _h : x.next with
  | (none, _) => []
  | (some item, x') => item :: items x'
termination_by x.bound
decreasing_by exact bound_next _h

end Extraction

/-- The items of a selector in a source. -/
def Selector.extract {σ : Type} [EventStream σ] (selector : Selector) (limits : Limits)
    (source : σ) : List (Except Failure Fragment) :=
  (Extraction.begin selector limits source).items

/-- The values of items up to the end, or the first failure. -/
def allOrFirstFailure {α : Type} (items : List (Except Failure α)) : Except Failure (List α) :=
  items.mapM id

end SubtreeHarvest

/-
What one pull of an extraction comes to, one equation for each thing the source and the matcher
can do. An event after which the search goes on changes neither the next item nor any item after
it; every other event, the end and a failure decide the next item. Nothing behind this module
opens the loop that reads on to the next fragment.
-/
import SubtreeHarvest.Extract.Extraction

namespace SubtreeHarvest

namespace Extraction

variable {σ : Type} [EventStream σ] {s s₁ : σ} {m m₁ : Matcher} {limits : Limits} {n : Nat}
  {event : Event}

/-! ## The next item -/

theorem next_finished {x : Extraction σ} (h : x.finished = true) : x.next = (none, x) := by
  unfold next; rw [if_pos h]

theorem next_unfinished (s : σ) (m : Matcher) (limits : Limits) (n : Nat) :
    next ⟨s, m, limits, n, false⟩ = pull ⟨s, m, limits, n, false⟩ := rfl

theorem next_goesOn (hn : EventStream.next s = (.ok (some event), s₁))
    (hc : m.consume limits event = .goesOn m₁) :
    next ⟨s, m, limits, n, false⟩ = next ⟨s₁, m₁, limits, n, false⟩ := by
  rw [next_unfinished, next_unfinished, pull]
  split <;> simp_all

theorem next_fragment {fragment : Fragment} (hn : EventStream.next s = (.ok (some event), s₁))
    (hc : m.consume limits event = .fragment fragment m₁) :
    next ⟨s, m, limits, n, false⟩ = (some (.ok fragment), ⟨s₁, m₁, limits, n + 1, false⟩) := by
  rw [next_unfinished, pull]
  split <;> simp_all

theorem next_leaves (hn : EventStream.next s = (.ok (some event), s₁))
    (hc : m.consume limits event = .leaves m₁) :
    next ⟨s, m, limits, n, false⟩ = (none, ⟨s₁, m₁, limits, n, true⟩) := by
  rw [next_unfinished, pull]
  split <;> simp_all

theorem next_exceeds {kind : FailureKind} (hn : EventStream.next s = (.ok (some event), s₁))
    (hc : m.consume limits event = .exceeds kind) :
    next ⟨s, m, limits, n, false⟩ =
      (some (.error (seenBy s₁ (.ofKind kind))), ⟨s₁, m, limits, n, true⟩) := by
  rw [next_unfinished, pull]
  split <;> simp_all

theorem next_end (hn : EventStream.next s = (.ok none, s₁)) (ht : m.truncation? = none) :
    next ⟨s, m, limits, n, false⟩ = (none, ⟨s₁, m, limits, n, true⟩) := by
  rw [next_unfinished, pull]
  split <;> simp_all

theorem next_cutShort {message : String} (hn : EventStream.next s = (.ok none, s₁))
    (ht : m.truncation? = some message) :
    next ⟨s, m, limits, n, false⟩ =
      (some (.error (seenBy s₁ (.saying .inputCutShort message))), ⟨s₁, m, limits, n, true⟩) := by
  rw [next_unfinished, pull]
  split <;> simp_all

theorem next_failure {failure : Failure} (hn : EventStream.next s = (.error failure, s₁)) :
    next ⟨s, m, limits, n, false⟩ = (some (.error failure), ⟨s₁, m, limits, n, true⟩) := by
  rw [next_unfinished, pull]
  split <;> simp_all

/-! ## The items -/

theorem items_of_some {x x₁ : Extraction σ} {item : Except Failure Fragment}
    (h : x.next = (some item, x₁)) : x.items = item :: x₁.items := by
  rw [items]
  split <;> simp_all

theorem items_of_none {x x₁ : Extraction σ} (h : x.next = (none, x₁)) : x.items = [] := by
  rw [items]
  split <;> simp_all

theorem items_congr {x y : Extraction σ} (h : x.next = y.next) : x.items = y.items := by
  rcases hy : y.next with ⟨_ | item, z⟩
  · rw [items_of_none (h.trans hy), items_of_none hy]
  · rw [items_of_some (h.trans hy), items_of_some hy]

theorem items_finished {x : Extraction σ} (h : x.finished = true) : x.items = [] :=
  items_of_none (next_finished h)

theorem items_goesOn (hn : EventStream.next s = (.ok (some event), s₁))
    (hc : m.consume limits event = .goesOn m₁) :
    items ⟨s, m, limits, n, false⟩ = items ⟨s₁, m₁, limits, n, false⟩ :=
  items_congr (next_goesOn hn hc)

theorem items_fragment {fragment : Fragment} (hn : EventStream.next s = (.ok (some event), s₁))
    (hc : m.consume limits event = .fragment fragment m₁) :
    items ⟨s, m, limits, n, false⟩ = .ok fragment :: items ⟨s₁, m₁, limits, n + 1, false⟩ :=
  items_of_some (next_fragment hn hc)

theorem items_end (hn : EventStream.next s = (.ok none, s₁)) (ht : m.truncation? = none) :
    items ⟨s, m, limits, n, false⟩ = [] :=
  items_of_none (next_end hn ht)

end Extraction

end SubtreeHarvest

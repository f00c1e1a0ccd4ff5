/-
The course of an extraction, event by event. One event leads an extraction that is not over to
the next state, with a fragment or without one; the items still to come from a later state are
the last of those from an earlier one, and every fragment is answered at some state on the way.
-/
import Mathlib.Logic.Relation
import SubtreeHarvest.Proofs.Extract.Items

namespace SubtreeHarvest

namespace Extraction

variable {σ : Type} [EventStream σ]

/-- One event leads from a state to the next. -/
inductive Leads : Extraction σ → Extraction σ → Prop
  | goesOn {s s₁ : σ} {m m₁ : Matcher} {limits : Limits} {n : Nat} {event : Event} :
      EventStream.next s = (.ok (some event), s₁) → m.consume limits event = .goesOn m₁ →
      Leads ⟨s, m, limits, n, false⟩ ⟨s₁, m₁, limits, n, false⟩
  | fragment {s s₁ : σ} {m m₁ : Matcher} {limits : Limits} {n : Nat} {event : Event}
      {fragment : Fragment} :
      EventStream.next s = (.ok (some event), s₁) → m.consume limits event = .fragment fragment m₁ →
      Leads ⟨s, m, limits, n, false⟩ ⟨s₁, m₁, limits, n + 1, false⟩

/-- The states that an extraction passes through. -/
abbrev Passes : Extraction σ → Extraction σ → Prop :=
  Relation.ReflTransGen Leads

variable {x y : Extraction σ}

theorem Leads.limits_eq (h : x.Leads y) : y.limits = x.limits := by
  cases h <;> rfl

theorem Passes.limits_eq (h : x.Passes y) : y.limits = x.limits := by
  induction h with
  | refl => rfl
  | tail _ h ih => exact h.limits_eq.trans ih

theorem Leads.items_suffix (h : x.Leads y) : y.items <:+ x.items := by
  cases h with
  | goesOn hn hc => exact items_goesOn hn hc ▸ List.suffix_refl _
  | fragment hn hc => rw [items_fragment hn hc]; exact List.suffix_cons ..

theorem Passes.items_suffix (h : x.Passes y) : y.items <:+ x.items := by
  induction h with
  | refl => exact List.suffix_refl _
  | tail _ h ih => exact h.items_suffix.trans ih

/-- What the next item is and what the extraction is behind it, at a state where no event comes
behind which the search goes on. -/
inductive Decides : Extraction σ → Option (Except Failure Fragment) × Extraction σ → Prop
  | failure {s s₁ : σ} {m : Matcher} {limits : Limits} {n : Nat} {failure : Failure} :
      EventStream.next s = (.error failure, s₁) →
      Decides ⟨s, m, limits, n, false⟩ (some (.error failure), ⟨s₁, m, limits, n, true⟩)
  | ended {s s₁ : σ} {m : Matcher} {limits : Limits} {n : Nat} :
      EventStream.next s = (.ok none, s₁) → m.truncation? = none →
      Decides ⟨s, m, limits, n, false⟩ (none, ⟨s₁, m, limits, n, true⟩)
  | cutShort {s s₁ : σ} {m : Matcher} {limits : Limits} {n : Nat} {message : String} :
      EventStream.next s = (.ok none, s₁) → m.truncation? = some message →
      Decides ⟨s, m, limits, n, false⟩
        (some (.error (seenBy s₁ (.saying .inputCutShort message))), ⟨s₁, m, limits, n, true⟩)
  | fragment {s s₁ : σ} {m m₁ : Matcher} {limits : Limits} {n : Nat} {event : Event}
      {fragment : Fragment} :
      EventStream.next s = (.ok (some event), s₁) → m.consume limits event = .fragment fragment m₁ →
      Decides ⟨s, m, limits, n, false⟩ (some (.ok fragment), ⟨s₁, m₁, limits, n + 1, false⟩)
  | leaves {s s₁ : σ} {m m₁ : Matcher} {limits : Limits} {n : Nat} {event : Event} :
      EventStream.next s = (.ok (some event), s₁) → m.consume limits event = .leaves m₁ →
      Decides ⟨s, m, limits, n, false⟩ (none, ⟨s₁, m₁, limits, n, true⟩)
  | exceeds {s s₁ : σ} {m : Matcher} {limits : Limits} {n : Nat} {event : Event}
      {kind : FailureKind} :
      EventStream.next s = (.ok (some event), s₁) → m.consume limits event = .exceeds kind →
      Decides ⟨s, m, limits, n, false⟩
        (some (.error (seenBy s₁ (.ofKind kind))), ⟨s₁, m, limits, n, true⟩)

/-- The next item of an extraction that is not over is decided at some state on the way. -/
theorem exists_decides (s : σ) (m : Matcher) (limits : Limits) (n : Nat) :
    ∃ z, Passes ⟨s, m, limits, n, false⟩ z ∧ z.Decides (next ⟨s, m, limits, n, false⟩) := by
  -- every event leaves less of the source
  induction hk : EventStream.remaining s using Nat.strongRecOn generalizing s m n with
  | ind k ih =>
    rcases hn : EventStream.next s with ⟨failure | _ | event, s₁⟩
    · exact ⟨_, .refl, next_failure hn ▸ .failure hn⟩
    · rcases ht : m.truncation? with _ | message
      · exact ⟨_, .refl, next_end hn ht ▸ .ended hn ht⟩
      · exact ⟨_, .refl, next_cutShort hn ht ▸ .cutShort hn ht⟩
    · cases hc : m.consume limits event with
      | goesOn m₁ =>
        obtain ⟨z, hp, hz⟩ := ih _ (hk ▸ EventStream.remaining_next hn) s₁ m₁ n rfl
        exact ⟨z, .head (.goesOn hn hc) hp, next_goesOn hn hc ▸ hz⟩
      | fragment made m₁ => exact ⟨_, .refl, next_fragment hn hc ▸ .fragment hn hc⟩
      | leaves m₁ => exact ⟨_, .refl, next_leaves hn hc ▸ .leaves hn hc⟩
      | exceeds kind => exact ⟨_, .refl, next_exceeds hn hc ▸ .exceeds hn hc⟩

/-- A fragment is answered where the matcher makes it out of an event. -/
def Gives (x : Extraction σ) (fragment : Fragment) : Prop :=
  x.finished = false ∧ ∃ event source matcher,
    EventStream.next x.source = (.ok (some event), source) ∧
      x.matcher.consume x.limits event = .fragment fragment matcher

/-- Every fragment among the items is answered at some state on the way. -/
theorem exists_gives {s : σ} {m : Matcher} {limits : Limits} {n : Nat} {fragment : Fragment}
    (h : .ok fragment ∈ items ⟨s, m, limits, n, false⟩) :
    ∃ y, Passes ⟨s, m, limits, n, false⟩ y ∧ y.Gives fragment := by
  -- every event leaves less of the source
  induction hk : EventStream.remaining s using Nat.strongRecOn generalizing s m n with
  | ind k ih =>
    rcases hn : EventStream.next s with ⟨_ | _ | event, s₁⟩
    · rw [items_of_some (next_failure hn), items_finished rfl] at h; simp at h
    · rcases ht : m.truncation? with _ | message
      · rw [items_end hn ht] at h; cases h
      · rw [items_of_some (next_cutShort hn ht), items_finished rfl] at h; simp at h
    · have hr := EventStream.remaining_next hn
      cases hc : m.consume limits event with
      | goesOn m₁ =>
        rw [items_goesOn hn hc] at h
        obtain ⟨y, hp, hg⟩ := ih _ (hk ▸ hr) h rfl
        exact ⟨y, .head (.goesOn hn hc) hp, hg⟩
      | fragment made m₁ =>
        rw [items_fragment hn hc, List.mem_cons] at h
        rcases h with h | h
        · cases h
          exact ⟨_, .refl, rfl, event, s₁, m₁, hn, hc⟩
        · obtain ⟨y, hp, hg⟩ := ih _ (hk ▸ hr) h rfl
          exact ⟨y, .head (.fragment hn hc) hp, hg⟩
      | leaves m₁ => rw [items_of_none (next_leaves hn hc)] at h; cases h
      | exceeds kind =>
        rw [items_of_some (next_exceeds hn hc), items_finished rfl] at h; simp at h

end Extraction

end SubtreeHarvest

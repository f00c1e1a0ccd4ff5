/-
The calls of an extraction, one after the other. A reply is what a caller sees of one call: the
item, if there is one, and the two counters behind it. Main facts: the replies hold the items in
order and then nothing any more, and two extractions whose next calls are alike reply alike.
-/
import SubtreeHarvest.Proofs.Extract.Course

namespace SubtreeHarvest

/-- What the caller sees of one call. -/
structure Reply where
  item : Option (Except Failure Fragment)
  /-- How many fragments have been answered behind the call. -/
  emitted : Nat
  /-- How many open elements are descended into behind the call. -/
  depth : Nat

namespace Extraction

variable {σ : Type} [EventStream σ]

/-- The extraction behind its first `k` calls. -/
def after (x : Extraction σ) : Nat → Extraction σ
  | 0 => x
  | k + 1 => x.next.2.after k

/-- The reply to call number `k`, counted from zero. -/
def reply (x : Extraction σ) (k : Nat) : Reply :=
  ⟨(x.after k).next.1, (x.after (k + 1)).emitted, (x.after (k + 1)).depth⟩

variable {x y : Extraction σ}

theorem reply_zero {item : Option (Except Failure Fragment)} (h : x.next = (item, y)) :
    x.reply 0 = ⟨item, y.emitted, y.depth⟩ := by
  rw [reply, after, after, after, h]

theorem reply_succ (x : Extraction σ) (k : Nat) : x.reply (k + 1) = x.next.2.reply k := rfl

theorem after_add : ∀ (x : Extraction σ) (k j : Nat), x.after (k + j) = (x.after k).after j
  | x, 0, j => by rw [Nat.zero_add, after]
  | x, k + 1, j => by rw [Nat.add_right_comm, after, after, after_add x.next.2 k j]

theorem after_succ (x : Extraction σ) (k : Nat) : x.after (k + 1) = (x.after k).next.2 :=
  after_add x k 1

theorem reply_add (x : Extraction σ) (k j : Nat) : x.reply (k + j) = (x.after k).reply j := by
  rw [reply, reply, Nat.add_assoc, after_add, after_add]

/-- The items that the first `k` calls answer. -/
def answered (x : Extraction σ) (k : Nat) : List (Except Failure Fragment) :=
  (List.range k).filterMap fun j => (x.reply j).item

theorem answered_succ (x : Extraction σ) (k : Nat) :
    x.answered (k + 1) = x.next.1.toList ++ x.next.2.answered k := by
  have first : (x.reply 0).item = x.next.1 := rfl
  rw [answered, answered, List.range_succ_eq_map, List.filterMap_cons, List.filterMap_map, first]
  cases x.next.1 <;> rfl

theorem after_succ_congr (h : x.next = y.next) (k : Nat) : x.after (k + 1) = y.after (k + 1) := by
  rw [after, after, h]

theorem reply_congr (h : x.next = y.next) : ∀ k, x.reply k = y.reply k
  | 0 => by
    rw [reply, reply, after, after, h, after_succ_congr h 0]
  | k + 1 => by
    rw [reply_succ, reply_succ, h]

/-! ## Behind the end -/

theorem after_finished (h : x.finished = true) : ∀ k, x.after k = x
  | 0 => rfl
  | k + 1 => by
    rw [after, next_finished h]
    exact after_finished h k

theorem reply_finished (h : x.finished = true) (k : Nat) : x.reply k = ⟨none, x.emitted, x.depth⟩ := by
  rw [reply, after_finished h, after_finished h, next_finished h]

/-- A call that answers no fragment leaves the extraction finished. -/
theorem finished_of_item {item : Option (Except Failure Fragment)} (h : x.next = (item, y))
    (hi : ∀ fragment, item ≠ some (.ok fragment)) : y.finished = true := by
  obtain ⟨s, m, limits, n, finished⟩ := x
  cases finished with
  | true =>
    rw [next_finished rfl] at h
    cases h
    rfl
  | false =>
    obtain ⟨z, -, decides⟩ := exists_decides s m limits n
    rw [h] at decides
    cases decides with
    | fragment => exact absurd rfl (hi _)
    | failure | ended | cutShort | leaves | exceeds => rfl

theorem finished_of_next (h : x.next = (none, y)) : y.finished = true :=
  finished_of_item h nofun

theorem finished_of_failure {failure : Failure} (h : x.next = (some (.error failure), y)) :
    y.finished = true :=
  finished_of_item h nofun

theorem finished_of_reply {k : Nat} (h : ∀ fragment, (x.reply k).item ≠ some (.ok fragment)) :
    (x.after (k + 1)).finished = true := by
  rw [after_succ]
  exact finished_of_item rfl h

/-! ## Replies and items -/

/-- The calls answer the items in order, and behind the last of them no call answers any. -/
theorem item_reply (x : Extraction σ) (k : Nat) : (x.reply k).item = x.items[k]? := by
  induction k generalizing x with
  | zero =>
    rcases hn : x.next with ⟨_ | item, y⟩
    · rw [items_of_none hn, reply, after, hn]; rfl
    · rw [items_of_some hn, reply, after, hn]; rfl
  | succ k ih =>
    rw [reply_succ, ih]
    rcases hn : x.next with ⟨_ | item, y⟩
    · rw [items_of_none hn, items_finished (finished_of_next hn)]; rfl
    · rw [items_of_some hn]; rfl

end Extraction

end SubtreeHarvest

/-
How far a cursor has come. Whatever the bytes of a document are, no pull goes back or past their end,
and every event is behind at least one more byte, but for an end tag that has waited behind the start
tag of an empty element: that tag takes two bytes or more, one for either event. So there are no more
events than bytes before the first failure or the end, and at the end a cursor stays where it is.

The position and the bytes still to come add up to the size of the document as long as something is
read; a failure may give up bytes, and never counts more of them.
-/
import Mathlib.Data.Nat.Find
import SubtreeHarvest.Proofs.Markup.Nested
import SubtreeHarvest.Proofs.Markup.Step
import SubtreeHarvest.Proofs.Stream

namespace SubtreeHarvest.Markup.Cursor

open EventStream

/-- The position of the end of the document. -/
def extent (r : Cursor) : Nat :=
  r.position + r.rest.length

/-- How many end tags wait. -/
def waiting (r : Cursor) : Nat :=
  if r.queuedEnd.isSome then 1 else 0

/-- The cursor at `r'` reads the same complete document as the one at `r`, and is no further back. -/
structure Past (r r' : Cursor) : Prop where
  complete : r'.ending = .complete
  position : r.position ≤ r'.position
  extent : r'.extent ≤ r.extent

/-- No byte of the document was given up on the way. -/
structure Onward (r r' : Cursor) : Prop extends Past r r' where
  lossless : r'.extent = r.extent

/-- What a construct, or a pull, comes to: how far the cursor has come behind it, and whether an end
tag waits there. -/
inductive Moves (r : Cursor) : Step × Cursor → Prop
  | event {event : Event} {r' : Cursor} : r.Onward r' →
      r.position + 1 + r'.waiting ≤ r'.position →
      (∀ name, r'.queuedEnd = some name → ∃ tag, event = .startTag tag ∧ tag.name = name) →
      Moves r (.event event, r')
  | ignored {r' : Cursor} : r.Onward r' → r'.queuedEnd = none → Moves r (.ignored, r')
  | ended {r' : Cursor} : r.Onward r' → r'.queuedEnd = none → r'.rest = [] → Moves r (.ended, r')
  | failed {failure : Failure} {r' : Cursor} : r.Past r' → r'.queuedEnd = none →
      failure.kind = .malformedMarkup → failure.position = some r'.position →
      Moves r (.failed failure, r')

variable {r r₁ r' : Cursor} {out : Step × Cursor}

theorem Past.trans (h : r.Past r₁) (h' : r₁.Past r') : r.Past r' :=
  ⟨h'.complete, Nat.le_trans h.position h'.position, Nat.le_trans h'.extent h.extent⟩

theorem Onward.refl (hc : r.ending = .complete) : r.Onward r :=
  ⟨⟨hc, Nat.le_refl _, Nat.le_refl _⟩, rfl⟩

theorem Onward.trans (h : r.Onward r₁) (h' : r₁.Onward r') : r.Onward r' :=
  ⟨h.toPast.trans h'.toPast, h'.lossless.trans h.lossless⟩

/-- What is met further on is met from here. -/
theorem Moves.behind (h : r.Onward r₁) (hm : r₁.Moves out) : r.Moves out := by
  cases hm with
  | event on far waits =>
    exact .event (h.trans on) (by have := h.position; omega) waits
  | ignored on hq => exact .ignored (h.trans on) hq
  | ended on hq hr => exact .ended (h.trans on) hq hr
  | failed past hq kind place => exact .failed (h.toPast.trans past) hq kind place

/-! ## One construct -/

theorem onward_movedBy {n : Nat} (hc : r.ending = .complete) (hn : n ≤ r.rest.length) :
    r.Onward (r.movedBy n) := by
  have same : (r.movedBy n).extent = r.extent := by
    simp only [extent, movedBy, List.length_drop]
    omega
  exact ⟨⟨hc, Nat.le_add_right _ _, Nat.le_of_eq same⟩, same⟩

theorem past_stopped {n : Nat} (hn : n ≤ r.rest.length) : r.Past (r.stopped n) :=
  ⟨rfl, Nat.le_add_right _ _, Nat.add_le_add_left hn _⟩

/-- A fault comes to light where the cursor stands behind it. -/
theorem moves_failedWith (h : r.Past r₁) (hq : r₁.queuedEnd = none) (fault : Fault) :
    r.Moves (r₁.failedWith fault) := by
  rw [failedWith]
  split
  · exact .failed (h.trans (past_stopped (Nat.zero_le _))) hq rfl rfl
  · exact .failed h hq rfl rfl

theorem waiting_of_none (hq : r.queuedEnd = none) : r.waiting = 0 := by
  rw [waiting, hq]
  rfl

/-- An event behind which no end tag waits. -/
theorem Moves.of_standing {event : Event} (h : r.Onward r') (hq : r'.queuedEnd = none)
    (far : r.position < r'.position) : r.Moves (.event event, r') :=
  .event h (by rw [waiting_of_none hq]; omega) fun name h => nomatch hq.symm.trans h

/-- The open elements do not bear on how far a cursor has come. -/
theorem Onward.inside (h : r.Onward r₁) (names : List (List UInt8)) :
    r.Onward { r₁ with openNames := names } :=
  ⟨⟨h.complete, h.position, h.extent⟩, h.lossless⟩

/-- A construct takes the two bytes of its brackets at least. -/
theorem moves_readConstruct (h : r.Onward r₁) (hq : r₁.queuedEnd = none)
    (far : r.position + 2 ≤ r₁.position) (construct : Construct) :
    r.Moves (r₁.readConstruct construct) := by
  have further : r.position < r₁.position := Nat.lt_of_succ_lt far
  obtain ⟨reading, hr⟩ := exists_reading construct r₁.openNames
  rw [hr r₁ rfl]
  cases reading with
  | event event names => exact .of_standing (h.inside names) hq further
  | emptyElement tag =>
    -- of its two events the end tag waits
    refine .event ⟨⟨h.complete, h.position, h.extent⟩, h.lossless⟩ far fun name hw => ?_
    exact ⟨tag, rfl, Option.some.inj hw⟩
  | ignored => exact .ignored h hq
  | faulty fault names => exact moves_failedWith (h.inside names).toPast hq fault

theorem moves_step (hc : r.ending = .complete) (hq : r.queuedEnd = none) : r.Moves r.step := by
  have text {bytes behind : List UInt8} (hr : r.rest = bytes ++ behind) :
      r.Onward (r.movedBy bytes.length) :=
    onward_movedBy hc (hr ▸ (List.prefix_append bytes behind).length_le)
  have markup {bytes : List UInt8} {size : Nat} (hr : r.rest = Byte.less :: bytes)
      (hs : (scan bytes).size? = some size) : r.Onward (r.movedBy (size + 1)) :=
    onward_movedBy hc (hr ▸ Nat.succ_le_succ (size_scan hs))
  have meets := meets_step hc
  generalize r.step = out at meets
  cases meets with
  | ended hr => exact .ended (.refl hc) hq hr
  | text hr filled =>
    exact .of_standing (text hr) hq (Nat.lt_add_of_pos_right (List.length_pos_iff.2 filled))
  | badText hr => exact moves_failedWith (text hr).toPast hq _
  | @construct bytes construct size hr hs =>
    have far : r.position + 2 ≤ r.position + (size + 1) :=
      Nat.add_le_add_left (Nat.succ_le_succ (found_of_scan hs).size_pos) _
    exact moves_readConstruct (markup hr (congrArg Scan.size? hs)) hq far _
  | faulty hr hs => exact moves_failedWith (markup hr (congrArg Scan.size? hs)).toPast hq _
  | unfinished => exact moves_failedWith (past_stopped (Nat.le_refl _)) hq _
  | undeclared hr => exact moves_failedWith (past_stopped (hr ▸ Nat.succ_pos _)) hq _

/-- What is passed over is not given up. -/
theorem onward_of_ignored (hc : r.ending = .complete) (hq : r.queuedEnd = none)
    (h : r.step = (.ignored, r')) : r.Onward r' ∧ r'.queuedEnd = none := by
  have moves := moves_step hc hq
  rw [h] at moves
  cases moves with
  | ignored on none => exact ⟨on, none⟩

/-! ## Pulls -/

/-- The construct that decides what a pull answers. -/
def deciding : Except Failure (Option Event) → Step
  | .ok (some event) => .event event
  | .ok none => .ended
  | .error failure => .failed failure

theorem moves_read (hc : r.ending = .complete) (hq : r.queuedEnd = none) :
    r.Moves (deciding r.read.1, r.read.2) := by
  fun_induction read r with
  | case1 r event after hs => exact hs ▸ moves_step hc hq
  | case2 r after hs => exact hs ▸ moves_step hc hq
  | case3 r failure after hs => exact hs ▸ moves_step hc hq
  | case4 r after hs ih =>
    obtain ⟨on, none⟩ := onward_of_ignored hc hq hs
    exact .behind on (ih on.complete none)

/-- A pull answers the end tag that waits, and moves nothing, or it moves the cursor on. -/
theorem moves_next (hc : r.ending = .complete) :
    (∃ name, r.queuedEnd = some name ∧
      EventStream.next r = (.ok (some (.endTag name)), { r with queuedEnd := none })) ∨
    r.queuedEnd = none ∧ r.Moves (deciding (EventStream.next r).1, (EventStream.next r).2) := by
  cases hq : r.queuedEnd with
  | some name => exact .inl ⟨name, rfl, next_queued hq⟩
  | none =>
    rw [next_unqueued hq]
    exact .inr ⟨rfl, moves_read hc hq⟩

theorem Moves.past {step : Step} (h : r.Moves (step, r')) : r.Past r' := by
  cases h with
  | event on | ignored on | ended on => exact on.toPast
  | failed past => exact past

theorem past_next (hc : r.ending = .complete) : r.Past (EventStream.next r).2 := by
  rcases moves_next hc with ⟨name, -, hn⟩ | ⟨-, moves⟩
  · rw [hn]
    exact ⟨hc, Nat.le_refl _, Nat.le_refl _⟩
  · exact moves.past

/-- Up to a failure no byte is given up. -/
theorem onward_of_event {event : Event} (hc : r.ending = .complete)
    (h : EventStream.next r = (.ok (some event), r')) : r.Onward r' := by
  rcases moves_next hc with ⟨name, -, hn⟩ | ⟨-, moves⟩
  · cases hn.symm.trans h
    exact ⟨⟨hc, Nat.le_refl _, Nat.le_refl _⟩, rfl⟩
  · rw [h] at moves
    cases moves with
    | event on => exact on

theorem past_pulled (hc : r.ending = .complete) : ∀ k, r.Past (pulled r k)
  | 0 => (Onward.refl hc).toPast
  | k + 1 => by
    have before := past_pulled hc k
    rw [pulled_succ]
    exact before.trans (past_next before.complete)

/-- As long as a pull answers an event, there are as many bytes behind as events, and one more if an
end tag waits. -/
theorem position_pulled (hc : r.ending = .complete) (hq : r.queuedEnd = none) (k : Nat)
    (h : ∀ j < k, ∃ event, answer r j = .ok (some event)) :
    r.position + k + (pulled r k).waiting ≤ (pulled r k).position := by
  induction k with
  | zero => exact Nat.le_of_eq (congrArg (r.position + ·) (waiting_of_none hq))
  | succ k ih =>
    have before := ih fun j hj => h j (Nat.lt_succ_of_lt hj)
    obtain ⟨event, he⟩ := h k (Nat.lt_succ_self k)
    rw [pulled_succ]
    rcases moves_next (past_pulled hc k).complete with ⟨name, hw, hn⟩ | ⟨-, moves⟩
    · -- the tag that waits has been counted
      have one : (pulled r k).waiting = 1 := by rw [waiting, hw]; rfl
      rw [hn, waiting_of_none rfl]
      show r.position + (k + 1) + 0 ≤ (pulled r k).position
      omega
    · rw [show (EventStream.next (pulled r k)).1 = .ok (some event) from he] at moves
      cases moves with
      | event on far => omega

/-- Behind the end of a document every pull answers the end, and moves nothing. -/
theorem answer_behind_end (hc : r.ending = .complete) {k : Nat} (h : answer r k = .ok none) :
    ∀ j > k, answer r j = .ok none ∧ (pulled r (j + 1)).position = (pulled r (k + 1)).position := by
  have complete := (past_pulled hc k).complete
  have still : EventStream.next (pulled r (k + 1)) = (.ok none, pulled r (k + 1)) := by
    rw [pulled_succ]
    rcases moves_next complete with ⟨name, -, hn⟩ | ⟨-, moves⟩
    · rw [answer, hn] at h
      cases h
    · rw [show (EventStream.next (pulled r k)).1 = .ok none from h] at moves
      cases moves with
      | ended on hq hr => exact next_nil on.complete hq hr
  intro j hj
  obtain ⟨i, rfl⟩ := Nat.exists_eq_add_of_le hj
  have stays := (pulled_add r (k + 1) (i + 1)).trans (answer_of_still still (i + 1)).1
  exact ⟨(answer_add r (k + 1) i).trans (answer_of_still still i).2, congrArg position stays⟩

/-- An end tag waits only behind the start tag answered last. -/
theorem exists_startTag_of_queued (hc : r.ending = .complete) {k : Nat} {name : String}
    (h : (pulled r (k + 1)).queuedEnd = some name) :
    ∃ tag, answer r k = .ok (some (.startTag tag)) ∧ tag.name = name := by
  rw [pulled_succ] at h
  rw [answer]
  rcases moves_next (past_pulled hc k).complete with ⟨_, -, hn⟩ | ⟨-, moves⟩
  · rw [hn] at h
    cases h
  · rcases hn : EventStream.next (pulled r k) with ⟨failure | _ | event, r'⟩ <;> rw [hn] at h moves
    · cases moves with
      | failed _ none => cases none.symm.trans h
    · cases moves with
      | ended _ none => cases none.symm.trans h
    · cases moves with
      | event _ _ waits =>
        obtain ⟨tag, rfl, ht⟩ := waits name h
        exact ⟨tag, rfl, ht⟩

theorem extent_ofBytes (bytes : List UInt8) : (ofBytes bytes).extent ≤ bytes.length := by
  show 0 + (withoutOrderMark bytes).length ≤ bytes.length
  rw [Nat.zero_add, withoutOrderMark]
  split
  · exact (List.drop_sublist ..).length_le
  · exact Nat.le_refl _

/-- Whatever the bytes of a document are, no pull goes back or past their end. A pull that answers an
event goes on, but for one that answers the end tag of an empty element, whose start tag the pull
before it answered. There are no more events than bytes in front of the first failure or the end. Behind
the end every pull answers the end, at the same place. -/
theorem document_progress (bytes : List UInt8) :
    let document := ofBytes bytes
    (∀ k, (pulled document k).position ≤ (pulled document (k + 1)).position ∧
      (pulled document (k + 1)).position ≤ bytes.length) ∧
    (∀ k event, answer document k = .ok (some event) →
      ((pulled document k).queuedEnd = none ∧
        (pulled document k).position < (pulled document (k + 1)).position) ∨
      ∃ j tag, k = j + 1 ∧ answer document j = .ok (some (.startTag tag)) ∧
        event = .endTag tag.name ∧ (pulled document k).queuedEnd = some tag.name ∧
        (pulled document (k + 1)).queuedEnd = none ∧
        (pulled document (k + 1)).position = (pulled document k).position) ∧
    (∃ k ≤ bytes.length, (∀ j < k, ∃ event, answer document j = .ok (some event)) ∧
      ∀ event, answer document k ≠ .ok (some event)) ∧
    ∀ k, answer document k = .ok none → ∀ j > k, answer document j = .ok none ∧
      (pulled document (j + 1)).position = (pulled document (k + 1)).position := by
  intro document
  have complete : ∀ k, (pulled document k).ending = .complete := fun k => (past_pulled rfl k).complete
  have within : ∀ k, (pulled document k).position ≤ bytes.length := fun k =>
    Nat.le_trans (Nat.le_add_right _ _)
      (Nat.le_trans (past_pulled rfl k).extent (extent_ofBytes bytes))
  refine ⟨fun k => ⟨?_, within (k + 1)⟩, fun k event h => ?_, ?_, fun k h => answer_behind_end rfl h⟩
  · rw [pulled_succ]
    exact (past_next (complete k)).position
  · rcases moves_next (complete k) with ⟨name, hw, hn⟩ | ⟨hq, moves⟩
    · right
      cases k with
      | zero => cases hw
      | succ j =>
        obtain ⟨tag, ha, rfl⟩ := exists_startTag_of_queued rfl hw
        rw [answer, hn] at h
        cases h
        rw [pulled_succ document (j + 1), hn]
        exact ⟨j, tag, rfl, ha, rfl, hw, rfl, rfl⟩
    · left
      rw [show (EventStream.next (pulled document k)).1 = .ok (some event) from h] at moves
      cases moves with
      | event on far =>
        rw [pulled_succ]
        exact ⟨hq, by omega⟩
  · classical
    have bound : ∀ k, (∀ j < k, ∃ event, answer document j = .ok (some event)) → k ≤ bytes.length := by
      intro k hk
      have far : 0 + k + (pulled document k).waiting ≤ (pulled document k).position :=
        position_pulled rfl rfl k hk
      have near := within k
      omega
    have stops : ∃ k, ∀ event, answer document k ≠ .ok (some event) := by
      by_contra always
      have events : ∀ k, ∃ event, answer document k = .ok (some event) := fun k =>
        not_forall_not.1 (not_exists.1 always k)
      exact absurd (bound (bytes.length + 1) fun j _ => events j) (Nat.not_succ_le_self _)
    have before : ∀ j < Nat.find stops, ∃ event, answer document j = .ok (some event) := fun j hj =>
      not_forall_not.1 (Nat.find_min stops hj)
    exact ⟨Nat.find stops, bound _ before, before, Nat.find_spec stops⟩

/-- A comment and an empty element in eleven bytes: both of its tags are answered at the end. -/
theorem document_progress_emptyElement :
    let document := ofBytes [0x3C, 0x21, 0x2D, 0x2D, 0x2D, 0x2D, 0x3E, 0x3C, 0x61, 0x2F, 0x3E]
    (answer document 0 = .ok (some (.startTag ⟨"a", []⟩)) ∧
      (pulled document 0).position < (pulled document 1).position) ∧
    (answer document 1 = .ok (some (.endTag "a")) ∧ (pulled document 1).queuedEnd = some "a" ∧
      (pulled document 2).position = (pulled document 1).position) ∧
    answer document 2 = .ok none ∧ (pulled document 3).position ≤ 11 ∧
      ∀ j > 2, answer document j = .ok none ∧
        (pulled document (j + 1)).position = (pulled document 3).position := by
  intro document
  let waiting : Cursor := ⟨[], .complete, 11, [], some "a"⟩
  have tag : (⟨"a", []⟩ : Tag).Writable := by decide
  have comment : document.step = (.ignored, ⟨[0x3C, 0x61, 0x2F, 0x3E], .complete, 7, [], none⟩) := rfl
  have first : EventStream.next document = (.ok (some (.startTag ⟨"a", []⟩)), waiting) :=
    (read_of_ignored comment).trans
      (read_of_event (@readOpenTag_slash _ [0x61, 0x2F] _ rfl tag.decodeTag))
  have one : pulled document 1 = waiting := congrArg Prod.snd first
  have started : answer document 0 = .ok (some (.startTag ⟨"a", []⟩)) := congrArg Prod.fst first
  have closed : answer document 1 = .ok (some (.endTag "a")) := by rw [answer, one]; rfl
  have two : pulled document 2 = ⟨[], .complete, 11, [], none⟩ := by rw [pulled_succ, one]; rfl
  have ended : answer document 2 = .ok none := by
    rw [answer, two, next_nil rfl rfl rfl]
  obtain ⟨within, moves, -, behind⟩ := document_progress
    [0x3C, 0x21, 0x2D, 0x2D, 0x2D, 0x2D, 0x3E, 0x3C, 0x61, 0x2F, 0x3E]
  refine ⟨⟨started, ?_⟩, ⟨closed, by rw [one], ?_⟩, ended, (within 2).2, behind 2 ended⟩
  · rcases moves 0 _ started with ⟨-, on⟩ | ⟨j, -, none, -⟩
    · exact on
    · cases none
  · rcases moves 1 _ closed with ⟨none, -⟩ | ⟨-, -, -, -, -, -, -, same⟩
    · rw [one] at none
      cases none
    · exact same

end SubtreeHarvest.Markup.Cursor

/-
Reading on. What a cursor reads in the front part of a document it reads with more bytes behind it
too, and stands in front of these bytes then. The one thing that more bytes can change is a text that
the front part ends in: it goes on with them unless a bracket comes first.
-/
import SubtreeHarvest.Proofs.Markup.Progress

namespace SubtreeHarvest.Markup

open EventStream Text

/-! ## Constructs -/

theorem cutNested_append (more : List UInt8) : ∀ {bytes before behind : List UInt8} {depth : Nat},
    cutNested depth bytes = some (before, behind) →
      cutNested depth (bytes ++ more) = some (before, behind ++ more)
  | b :: bytes, before, behind, depth, h => by
    rw [List.cons_append]
    unfold cutNested at h ⊢
    split at h
    · rename_i less
      obtain ⟨⟨before', behind'⟩, hc, he⟩ := Option.map_eq_some_iff.1 h
      cases he
      rw [if_pos less, cutNested_append more hc]
      rfl
    · rename_i less
      rw [if_neg less]
      split at h
      · rename_i greater
        rw [if_pos greater]
        split at h
        · cases h
          rfl
        · obtain ⟨⟨before', behind'⟩, hc, he⟩ := Option.map_eq_some_iff.1 h
          cases he
          dsimp only
          rw [cutNested_append more hc]
          rfl
      · rename_i greater
        obtain ⟨⟨before', behind'⟩, hc, he⟩ := Option.map_eq_some_iff.1 h
        cases he
        rw [if_neg greater, cutNested_append more hc]
        rfl

variable {bytes : List UInt8} {construct : Construct} {size : Nat}

/-- A well-formed construct stays one, of the same size, with more bytes behind it. -/
theorem Found.append (h : Found bytes construct size) (more : List UInt8) :
    Found (bytes ++ more) construct size := by
  cases h with
  | openTag other hc => exact .openTag other (cutUnquoted_append more hc)
  | closeTag hc => exact .closeTag (cutUnquoted_append more hc)
  | cdata hc starts => exact .cdata (cut_append more hc) starts
  | comment hc =>
    rw [List.cons_append, List.append_assoc]
    exact .comment (cut_append more hc)
  | doctype hb hc keyword named => exact .doctype hb (cutNested_append more hc) keyword named
  | instruction hc filled => exact .instruction (cut_append more hc) filled

namespace Cursor

/-- The cursor with more bytes behind those still to come. -/
def followedBy (r : Cursor) (more : List UInt8) : Cursor :=
  { r with rest := r.rest ++ more }

variable {r r' last : Cursor} {more : List UInt8} {out : Step}

theorem followedBy_movedBy {n : Nat} (hn : n ≤ r.rest.length) :
    (r.followedBy more).movedBy n = (r.movedBy n).followedBy more := by
  simp only [followedBy, movedBy, List.drop_append_of_le_length hn]

theorem readConstruct_followedBy (h : r.readConstruct construct = (out, r')) (hg : out.goesOn = true) :
    (r.followedBy more).readConstruct construct = (out, r'.followedBy more) := by
  obtain ⟨reading, hr⟩ := exists_reading construct r.openNames
  rw [hr r rfl] at h
  rw [hr (r.followedBy more) rfl]
  cases reading with
  | event | emptyElement | ignored => cases h; rfl
  | faulty => cases h; cases hg

/-- A construct is read alike with more bytes behind it, if these do not go on with a text that is
read up to the last byte. -/
theorem step_followedBy (hc : r.ending = .complete) (h : r.step = (out, r')) (hg : out.goesOn = true)
    (hm : r'.rest = [] → ∀ content, out = .event (.text content) → Bracketed more) :
    (r.followedBy more).step = (out, r'.followedBy more) := by
  have meets := meets_step hc
  rw [h] at meets
  generalize hout : (out, r') = both at meets
  cases meets with
  | ended | badText | faulty | unfinished | undeclared => cases hout; cases hg
  | @text bytes behind content hr filled plain hb hd =>
    cases hout
    have stays : (r.followedBy more).rest = bytes ++ (behind ++ more) := by
      rw [followedBy, hr, List.append_assoc]
    have bracketed : Bracketed (behind ++ more) := by
      cases behind with
      | nil => exact hm (by rw [movedBy, hr, List.append_nil, List.drop_length]) content rfl
      | cons b behind => exact hb
    rw [(Meets.text stays filled plain bracketed hd).step_eq hc, followedBy_movedBy]
    rw [hr, List.length_append]
    exact Nat.le_add_right ..
  | @construct bytes construct size hr hs =>
    have stays : (r.followedBy more).rest = Byte.less :: (bytes ++ more) := by
      rw [followedBy, hr, List.cons_append]
    have within : size + 1 ≤ r.rest.length :=
      hr ▸ Nat.succ_le_succ (size_scan (congrArg Scan.size? hs))
    have found := ((found_of_scan hs).append more).scan_eq
    rw [(Meets.construct stays found).step_eq hc, followedBy_movedBy within]
    exact readConstruct_followedBy hout.symm hg

/-! ## Pulls -/

/-- An event is answered alike with more bytes behind it. -/
theorem next_followedBy {event : Event} (hc : r.ending = .complete)
    (h : EventStream.next r = (.ok (some event), r'))
    (hm : r'.rest = [] → ∀ content, event = .text content → Bracketed more) :
    EventStream.next (r.followedBy more) = (.ok (some event), r'.followedBy more) := by
  cases hq : r.queuedEnd with
  | some name =>
    cases (next_queued hq).symm.trans h
    exact next_queued hq
  | none =>
    rw [next_unqueued hq] at h
    rw [next_unqueued (r := r.followedBy more) hq]
    fun_induction read r with
    | case1 r e after hs =>
      cases h
      exact read_of_event (step_followedBy hc hs rfl fun hr content he => hm hr content (Step.event.inj he))
    | case2 | case3 => cases h
    | case4 r after hs ih =>
      obtain ⟨on, none⟩ := onward_of_ignored hc hq hs
      rw [read_of_ignored (step_followedBy hc hs rfl fun _ _ event => by cases event)]
      exact ih on.complete h none

/-- The end is met where no byte is left. -/
theorem eq_of_step_ended (hc : r.ending = .complete) (h : r.step = (.ended, r')) :
    r' = r ∧ r.rest = [] := by
  have meets := meets_step hc
  rw [h] at meets
  generalize hout : (Step.ended, r') = both at meets
  cases meets with
  | ended hr => cases hout; exact ⟨rfl, hr⟩
  | @construct bytes construct size hr hs =>
    obtain ⟨reading, hread⟩ := exists_reading construct r.openNames
    rw [hread (r.movedBy (size + 1)) rfl] at hout
    cases reading <;> cases hout
  | text | badText | faulty | unfinished | undeclared => cases hout

/-- At the end of the front part a cursor goes on with the bytes behind it. -/
theorem next_end_followedBy (hc : r.ending = .complete) (h : EventStream.next r = (.ok none, last)) :
    last.rest = [] ∧ last.ending = .complete ∧ last.queuedEnd = none ∧
      ∀ more, EventStream.next (r.followedBy more) = EventStream.next (last.followedBy more) := by
  cases hq : r.queuedEnd with
  | some name => cases (next_queued hq).symm.trans h
  | none =>
    rw [next_unqueued hq] at h
    simp only [next_unqueued (r := r.followedBy _) hq]
    fun_induction read r with
    | case1 | case3 => cases h
    | case2 r after hs =>
      cases h
      obtain ⟨rfl, hr⟩ := eq_of_step_ended hc hs
      exact ⟨hr, hc, hq, fun more => (next_unqueued (r := last.followedBy more) hq).symm⟩
    | case4 r after hs ih =>
      obtain ⟨on, none⟩ := onward_of_ignored hc hq hs
      obtain ⟨hr, complete, unqueued, goes⟩ := ih on.complete h none
      refine ⟨hr, complete, unqueued, fun more => ?_⟩
      rw [read_of_ignored (step_followedBy hc hs rfl fun _ _ event => by cases event)]
      exact goes more

theorem onward_of_answers : ∀ {events : List Event} {r r' : Cursor}, r.ending = .complete →
    Answers r events r' → r.Onward r'
  | [], _, _, hc, rfl => .refl hc
  | _ :: _, _, _, hc, ⟨_, hn, ha⟩ =>
    have on := onward_of_event hc hn
    on.trans (onward_of_answers on.complete ha)

/-- The document ends in a text: the event answered last is one, and no byte is behind it. -/
def EndsInText (r : Cursor) : Prop :=
  ∃ events content last, Answers r (events ++ [.text content]) last ∧ last.rest = []

/-- Events are answered alike with more bytes behind them. -/
theorem answers_followedBy : ∀ {events : List Event} {r r' : Cursor}, r.ending = .complete →
    Answers r events r' → (r.EndsInText → Bracketed more) →
      Answers (r.followedBy more) events (r'.followedBy more)
  | [], _, _, _, rfl, _ => rfl
  | event :: events, r, r', hc, ⟨r₁, hn, ha⟩, hm => by
    refine ⟨r₁.followedBy more, next_followedBy hc hn ?_, ?_⟩
    · rintro hr content rfl
      exact hm ⟨[], content, r₁, ⟨r₁, hn, rfl⟩, hr⟩
    · refine answers_followedBy (onward_of_event hc hn).complete ha ?_
      rintro ⟨before, content, last, hb, hr⟩
      exact hm ⟨event :: before, content, last, ⟨r₁, hn, hb⟩, hr⟩

end Cursor

end SubtreeHarvest.Markup

/-
Comments and instructions anywhere in a document. What a cursor reads does not depend on where it
stands, only the places of failures do. So where the front part of a document is read up to its end
without a failure, and no text goes on across that end, a comment or an instruction put in there
changes neither the events nor the failures, but for the places of these, and no selector tells the
two documents apart.
-/
import SubtreeHarvest.Proofs.Extract.Placed
import SubtreeHarvest.Proofs.Markup.Continued

namespace SubtreeHarvest

open EventStream

namespace Markup

open Text

namespace Cursor

/-! ## Elsewhere -/

/-- The cursor with another number of bytes behind it. -/
def placed (r : Cursor) (p : Nat) : Cursor :=
  { r with position := p }

/-- The same outcome elsewhere. -/
inductive Same : Step × Cursor → Step × Cursor → Prop
  | event (event : Event) (r : Cursor) (p : Nat) : Same (.event event, r) (.event event, r.placed p)
  | ignored (r : Cursor) (p : Nat) : Same (.ignored, r) (.ignored, r.placed p)
  | ended (r : Cursor) (p : Nat) : Same (.ended, r) (.ended, r.placed p)
  | failed {failure other : Failure} (r : Cursor) (p : Nat) : failure.unplaced = other.unplaced →
      Same (.failed failure, r) (.failed other, r.placed p)

variable {r r' : Cursor}

theorem same_failedWith (r : Cursor) (p : Nat) (fault : Fault) :
    Same (r.failedWith fault) ((r.placed p).failedWith fault) := by
  unfold failedWith
  dsimp only
  split
  · exact .failed (r.stopped 0) p rfl
  · exact .failed r p rfl

theorem same_readConstruct (r : Cursor) (p : Nat) (construct : Construct) :
    Same (r.readConstruct construct) ((r.placed p).readConstruct construct) := by
  obtain ⟨reading, hr⟩ := exists_reading construct r.openNames
  rw [hr r rfl, hr (r.placed p) rfl]
  cases reading with
  | event event names => exact .event event { r with openNames := names } p
  | emptyElement tag => exact .event (.startTag tag) { r with queuedEnd := some tag.name } p
  | ignored => exact .ignored r p
  | faulty fault names => exact same_failedWith { r with openNames := names } p fault

theorem same_step (hc : r.ending = .complete) (p : Nat) : Same r.step (r.placed p).step := by
  have elsewhere {out : Step × Cursor} (h : (r.placed p).Meets out) : (r.placed p).step = out :=
    h.step_eq hc
  have meets := meets_step hc
  generalize r.step = out at meets
  cases meets with
  | ended hr =>
    rw [elsewhere (.ended hr)]
    exact .ended r p
  | @text bytes behind content hr filled plain hb hd =>
    rw [elsewhere (.text hr filled plain hb hd)]
    exact .event (.text content) (r.movedBy bytes.length) (p + bytes.length)
  | @badText bytes behind fault hr filled plain hb hd =>
    rw [elsewhere (.badText hr filled plain hb hd)]
    exact same_failedWith (r.movedBy bytes.length) (p + bytes.length) fault
  | @construct bytes construct size hr hs =>
    rw [elsewhere (.construct hr hs)]
    exact same_readConstruct (r.movedBy (size + 1)) (p + (size + 1)) construct
  | @faulty bytes fault size hr hs =>
    rw [elsewhere (.faulty hr hs)]
    exact same_failedWith (r.movedBy (size + 1)) (p + (size + 1)) fault
  | @unfinished bytes construct hr hs =>
    rw [elsewhere (.unfinished hr hs)]
    exact same_failedWith (r.stopped r.rest.length) (p + r.rest.length) (.unclosed construct)
  | undeclared hr hs =>
    rw [elsewhere (.undeclared hr hs)]
    exact same_failedWith (r.stopped 1) (p + 1) .unknownDeclaration

theorem read_placed (hc : r.ending = .complete) (hq : r.queuedEnd = none) (p : Nat) :
    (r.placed p).read.1.mapError Failure.unplaced = r.read.1.mapError Failure.unplaced ∧
      ∃ q, (r.placed p).read.2 = r.read.2.placed q := by
  fun_induction read r generalizing p with
  | case1 r event after hs =>
    have same := same_step hc p
    rw [hs] at same
    generalize hout : (r.placed p).step = out at same
    cases same with
    | event _ _ q =>
      rw [read_of_event hout]
      exact ⟨rfl, q, rfl⟩
  | case2 r after hs =>
    have same := same_step hc p
    rw [hs] at same
    generalize hout : (r.placed p).step = out at same
    cases same with
    | ended _ q =>
      rw [read_of_ended hout]
      exact ⟨rfl, q, rfl⟩
  | case3 r failure after hs =>
    have same := same_step hc p
    rw [hs] at same
    generalize hout : (r.placed p).step = out at same
    cases same with
    | failed _ q alike =>
      rw [read_of_failed hout]
      exact ⟨congrArg Except.error alike.symm, q, rfl⟩
  | case4 r after hs ih =>
    have same := same_step hc p
    rw [hs] at same
    generalize hout : (r.placed p).step = out at same
    cases same with
    | ignored _ q =>
      obtain ⟨on, none⟩ := onward_of_ignored hc hq hs
      rw [read_of_ignored hout]
      exact ih on.complete none q

theorem next_placed (hc : r.ending = .complete) (p : Nat) :
    (EventStream.next (r.placed p)).1.mapError Failure.unplaced =
        (EventStream.next r).1.mapError Failure.unplaced ∧
      ∃ q, (EventStream.next (r.placed p)).2 = (EventStream.next r).2.placed q := by
  cases hq : r.queuedEnd with
  | some name =>
    rw [next_queued hq, next_queued (r := r.placed p) hq]
    exact ⟨rfl, p, rfl⟩
  | none =>
    rw [next_unqueued hq, next_unqueued (r := r.placed p) hq]
    exact read_placed hc hq p

/-- Where a cursor stands bears on nothing but the places of failures. -/
theorem answer_placed (hc : r.ending = .complete) (p k : Nat) :
    (answer (r.placed p) k).mapError Failure.unplaced = (answer r k).mapError Failure.unplaced := by
  induction k generalizing r p with
  | zero => exact (next_placed hc p).1
  | succ k ih =>
    obtain ⟨-, q, hq⟩ := next_placed hc p
    have later := ih (past_next hc).complete q
    rw [← hq] at later
    exact later

/-! ## What is passed over -/

/-- A whole comment, or a whole instruction; a declaration at the top of a document is written like an
instruction. -/
inductive PassedOver : List UInt8 → Prop
  | comment {content : List UInt8} : ¬ Byte.commentEnd <:+: content →
      PassedOver (Byte.less :: Byte.bang :: (Byte.commentStart ++ (content ++ Byte.commentEnd)))
  | instruction {content : List UInt8} : ¬ Byte.instructionEnd <:+: content →
      content.head? ≠ some Byte.greater →
      PassedOver (Byte.less :: Byte.question :: (content ++ Byte.instructionEnd))

/-- It is a construct of its own, whatever stands behind it. -/
theorem PassedOver.found {inserted : List UInt8} (h : PassedOver inserted) (behind : List UInt8) :
    ∃ bytes size, inserted = Byte.less :: bytes ∧ size = bytes.length ∧
      Found (bytes ++ behind) .ignored size := by
  cases h with
  | @comment content without =>
    have ends : cut Byte.commentEnd (content ++ Byte.commentEnd ++ behind) = some (content, behind) :=
      cut_of_first (by decide) fun inside =>
        without (infix_of_append_front (w := [Byte.dash, Byte.dash]) (by decide) inside)
    refine ⟨_, _, rfl, ?_, Found.comment ends⟩
    simp only [List.length_cons, List.length_append]
    omega
  | @instruction content without starts =>
    have ends : cut Byte.instructionEnd (Byte.question :: content ++ Byte.instructionEnd ++ behind) =
        some (Byte.question :: content, behind) := by
      refine cut_of_first (by decide) fun inside => ?_
      rcases List.infix_cons_iff.1 inside with here | inside
      · -- the question mark in front belongs to no end mark
        have next := (List.cons_prefix_cons.1 here).2
        cases content with
        | nil => exact absurd next (by decide)
        | cons b content => exact starts (congrArg some (List.cons_prefix_cons.1 next).1.symm)
      · exact without (infix_of_append_front (w := [Byte.question]) (by decide) inside)
    refine ⟨_, _, rfl, ?_, Found.instruction ends (List.cons_ne_nil _ _)⟩
    simp only [List.length_cons, List.length_append]
    omega

/-- A cursor that stands in front of it passes over it. -/
theorem step_passedOver {inserted behind : List UInt8} (h : PassedOver inserted)
    (hc : r.ending = .complete) (hr : r.rest = inserted ++ behind) :
    r.step = (.ignored, r.movedBy inserted.length) := by
  obtain ⟨bytes, size, rfl, rfl, found⟩ := h.found behind
  exact (Meets.construct hr found.scan_eq).step_eq hc

/-- At the end of the front part a cursor reads on behind what is passed over as if it were not there,
elsewhere. -/
theorem next_passedOver {inserted behind : List UInt8} (h : PassedOver inserted)
    (hc : r.ending = .complete) (hq : r.queuedEnd = none) (hr : r.rest = []) :
    EventStream.next (r.followedBy (inserted ++ behind)) =
      EventStream.next ((r.followedBy behind).placed (r.position + inserted.length)) := by
  have rest : (r.followedBy (inserted ++ behind)).rest = inserted ++ behind := by
    rw [followedBy, hr, List.nil_append]
  have passed := step_passedOver (r := r.followedBy (inserted ++ behind)) h hc rest
  have moved : (r.followedBy (inserted ++ behind)).movedBy inserted.length =
      (r.followedBy behind).placed (r.position + inserted.length) := by
    simp only [followedBy, movedBy, placed, hr, List.nil_append, List.drop_left]
  rw [next_unqueued (r := r.followedBy _) hq, next_unqueued (r := (r.followedBy behind).placed _) hq,
    read_of_ignored passed, moved]

/-! ## Order marks -/

theorem withoutOrderMark_eq {bytes : List UInt8} (h : ¬ Byte.orderMark <+: bytes) :
    withoutOrderMark bytes = bytes := by
  rw [withoutOrderMark, if_neg]
  rwa [List.isPrefixOf_iff_prefix]

/-- No bracket is in an order mark. -/
theorem not_orderMark {front bytes : List UInt8} (h : ¬ Byte.orderMark <+: front) :
    ¬ Byte.orderMark <+: front ++ Byte.less :: bytes := by
  intro mark
  rcases List.prefix_or_prefix_of_prefix mark (List.prefix_append ..) with here | ⟨rest, hrest⟩
  · exact h here
  · rw [← hrest, List.prefix_append_right_inj] at mark
    cases rest with
    | nil =>
      rw [List.append_nil] at hrest
      exact h (hrest ▸ List.prefix_refl _)
    | cons b rest =>
      obtain rfl := (List.cons_prefix_cons.1 mark).1
      have absent : Byte.less ∉ Byte.orderMark := by decide
      exact absent (hrest ▸ by simp)

theorem ofBytes_append {front more : List UInt8} (h : ¬ Byte.orderMark <+: front ++ more) :
    ofBytes (front ++ more) = (ofBytes front).followedBy more := by
  have unmarked : ¬ Byte.orderMark <+: front := fun mark => h (mark.trans (List.prefix_append ..))
  rw [ofBytes, ofBytes, withoutOrderMark_eq h, withoutOrderMark_eq unmarked]
  rfl

/-- Take a document without an order mark, whose front part is read alone up to its end without a
failure, and behind which no text goes on that the front part ends in. A comment or an instruction put
in behind the front part changes none of the events and no failure but for its place, and every
selector is replied to alike. -/
theorem document_inserted {front inserted behind : List UInt8}
    (unmarked : ¬ Byte.orderMark <+: front ++ behind)
    (whole : ∃ events r last, Answers (ofBytes front) events r ∧ EventStream.next r = (.ok none, last))
    (parted : (ofBytes front).EndsInText → Bracketed behind) (passed : PassedOver inserted) :
    let document := ofBytes (front ++ behind)
    let longer := ofBytes (front ++ inserted ++ behind)
    (∀ k, (answer longer k).mapError Failure.unplaced =
      (answer document k).mapError Failure.unplaced) ∧
    ∀ selector limits k, ((Extraction.begin selector limits longer).reply k).unplaced =
      ((Extraction.begin selector limits document).reply k).unplaced := by
  intro document longer
  obtain ⟨events, r, last, ha, hn⟩ := whole
  have complete : r.ending = .complete := (onward_of_answers rfl ha).complete
  obtain ⟨hr, ends, unqueued, goes⟩ := next_end_followedBy complete hn
  -- both documents go on behind the front part
  have short : Answers document events (r.followedBy behind) := by
    rw [show document = (ofBytes front).followedBy behind from ofBytes_append unmarked]
    exact answers_followedBy rfl ha parted
  have long : Answers longer events (r.followedBy (inserted ++ behind)) := by
    obtain ⟨bytes, -, rfl, -⟩ := passed.found behind
    have mark : ¬ Byte.orderMark <+: front ++ (Byte.less :: bytes ++ behind) :=
      not_orderMark fun mark => unmarked (mark.trans (List.prefix_append ..))
    have same : longer = (ofBytes front).followedBy (Byte.less :: bytes ++ behind) := by
      rw [← ofBytes_append mark, ← List.append_assoc]
    rw [same]
    exact answers_followedBy rfl ha fun _ => bracketed_cons _
  have alike (k : Nat) : (answer longer k).mapError Failure.unplaced =
      (answer document k).mapError Failure.unplaced := by
    refine unplaced_answer_of_answers long short (fun j => ?_) k
    rw [answer_congr ((goes _).trans (next_passedOver passed ends unqueued hr)),
      answer_congr (goes behind)]
    exact answer_placed (r := last.followedBy behind) ends _ j
  exact ⟨alike, fun selector limits k =>
    Extraction.unplaced_reply_of_agrees (agrees_of_answer alike) _ limits 0 k⟩

/-- A comment between a text and an end tag that closes another element: the document fails there with
it and without it. -/
theorem document_inserted_comment :
    let front : List UInt8 := [0x3C, 0x61, 0x3E, 0x78]
    let comment : List UInt8 := [0x3C, 0x21, 0x2D, 0x2D, 0x2D, 0x3E, 0x2D, 0x2D, 0x3E]
    let behind : List UInt8 := [0x3C, 0x2F, 0x62, 0x3E]
    ¬ Byte.orderMark <+: front ++ behind ∧ (∃ r, Answers (ofBytes front) [.startTag ⟨"a", []⟩, .text "x"] r ∧
      EventStream.next r = (.ok none, r)) ∧ Bracketed behind ∧ PassedOver comment ∧
    ∀ k, (answer (ofBytes (front ++ comment ++ behind)) k).mapError Failure.unplaced =
      (answer (ofBytes (front ++ behind)) k).mapError Failure.unplaced := by
  intro front comment behind
  have unmarked : ¬ Byte.orderMark <+: front ++ behind := by decide
  have tag : (⟨"a", []⟩ : Tag).Writable := by decide
  have started : Reads [] front [.startTag ⟨"a", []⟩] [[0x61]] [0x78] := reads_startTag tag
  have continued : Reads [[0x61]] [0x78] [.text "x"] [[0x61]] [] := @reads_text _ [] ['x'] (by decide) nofun
  obtain ⟨p, answered⟩ := (started.append continued) 0
  have ended := next_standing_nil p [[0x61]]
  have passed : PassedOver comment := @PassedOver.comment [0x2D, 0x3E] (by decide)
  have bracketed : Bracketed behind := bracketed_cons _
  obtain ⟨alike, -⟩ :=
    document_inserted unmarked ⟨_, _, _, answered, ended⟩ (fun _ => bracketed) passed
  exact ⟨unmarked, ⟨_, answered, ended⟩, bracketed, passed, alike⟩

end Cursor

end Markup

end SubtreeHarvest

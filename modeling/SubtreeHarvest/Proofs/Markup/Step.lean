/-
What the next construct of a complete document comes to: one rule for each construct that is well
formed behind an opening bracket, and one for each thing the bytes still to come can begin with. To
the reading of a construct a cursor brings nothing but the names of its open elements. Nothing behind
this module opens the scan or the step of a cursor: what holds of a construct is proved by cases on its
rule, and where the same rule applies the same is found.
-/
import SubtreeHarvest.Proofs.Markup.Written

namespace SubtreeHarvest.Markup

open Text

/-! ## Well-formed constructs -/

/-- A construct behind an opening bracket that is well formed, with its size. -/
inductive Found : List UInt8 → Construct → Nat → Prop
  | openTag {b : UInt8} {bytes content behind : List UInt8} :
      b ∉ [Byte.bang, Byte.question, Byte.slash] → cutTag (b :: bytes) = some (content, behind) →
      Found (b :: bytes) (.openTag content) (content.length + 1)
  | closeTag {bytes content behind : List UInt8} : cutTag bytes = some (content, behind) →
      Found (Byte.slash :: bytes) (.closeTag content) (1 + content.length + 1)
  | cdata {bytes content behind : List UInt8} :
      cut Byte.cdataEnd (Byte.bracket :: bytes) = some (content, behind) →
      Byte.cdataStart.isPrefixOf content = true →
      Found (Byte.bang :: Byte.bracket :: bytes) (.cdata (content.drop Byte.cdataStart.length))
        (1 + content.length + Byte.cdataEnd.length)
  | comment {bytes content behind : List UInt8} : cut Byte.commentEnd bytes = some (content, behind) →
      Found (Byte.bang :: (Byte.commentStart ++ bytes)) .ignored
        (1 + Byte.commentStart.length + content.length + Byte.commentEnd.length)
  | doctype {b : UInt8} {bytes content behind : List UInt8} : b = 0x44 ∨ b = 0x64 →
      cutNested 0 (b :: bytes) = some (content, behind) →
      Byte.doctypeKeyword.isPrefixOf (content.map Byte.toUpper) = true →
      (content.drop Byte.doctypeKeyword.length).all Byte.isSpace = false →
      Found (Byte.bang :: b :: bytes) .ignored (1 + content.length + 1)
  | instruction {bytes content behind : List UInt8} :
      cut Byte.instructionEnd (Byte.question :: bytes) = some (content, behind) → content ≠ [] →
      Found (Byte.question :: bytes) .ignored (content.length + Byte.instructionEnd.length)

variable {bytes : List UInt8} {construct : Construct} {size : Nat}

theorem found_of_scanCdata (h : scanCdata (Byte.bracket :: bytes) = .found construct size) :
    Found (Byte.bang :: Byte.bracket :: bytes) construct size := by
  unfold scanCdata at h
  split at h
  · cases h
  · rename_i content behind hc
    dsimp only at h
    split at h
    · cases h
      exact .cdata hc ‹_›
    · cases h

theorem found_of_scanComment (h : scanComment bytes = .found construct size) :
    Found (Byte.bang :: bytes) construct size := by
  unfold scanComment at h
  split at h
  · cases h
  · rename_i content behind hc
    dsimp only at h
    split at h
    · rename_i starts
      cases h
      obtain ⟨inside, rfl⟩ := List.isPrefixOf_iff_prefix.1 starts
      rw [List.drop_left] at hc
      exact .comment hc
    · cases h

theorem found_of_scanDoctype {b : UInt8} (hb : b = 0x44 ∨ b = 0x64)
    (h : scanDoctype (b :: bytes) = .found construct size) :
    Found (Byte.bang :: b :: bytes) construct size := by
  unfold scanDoctype at h
  split at h
  · cases h
  · rename_i content behind hc
    dsimp only at h
    split at h
    · split at h
      · cases h
      · rename_i keyword named
        cases h
        exact .doctype hb hc keyword (Bool.eq_false_iff.2 named)
    · cases h

theorem found_of_scanInstruction
    (h : scanInstruction (Byte.question :: bytes) = .found construct size) :
    Found (Byte.question :: bytes) construct size := by
  unfold scanInstruction at h
  split at h
  · cases h
  · rename_i content behind hc
    dsimp only at h
    split at h
    · cases h
    · rename_i filled
      cases h
      exact .instruction hc fun empty => filled (List.isEmpty_iff.2 empty)

theorem found_of_scanDeclaration (h : scanDeclaration bytes = .found construct size) :
    Found (Byte.bang :: bytes) construct size := by
  unfold scanDeclaration at h
  split at h
  · cases h
  · split at h
    · rename_i hb
      obtain rfl := eq_of_beq hb
      exact found_of_scanCdata h
    · split at h
      · exact found_of_scanComment h
      · split at h
        · rename_i hb
          exact found_of_scanDoctype (by simpa using hb) h
        · cases h

/-- What is found is well formed. -/
theorem found_of_scan (h : scan bytes = .found construct size) : Found bytes construct size := by
  unfold scan at h
  split at h
  · cases h
  · split at h
    · rename_i hb
      obtain rfl := eq_of_beq hb
      exact found_of_scanDeclaration h
    · rename_i bang
      split at h
      · rename_i hb
        obtain rfl := eq_of_beq hb
        exact found_of_scanInstruction h
      · rename_i question
        split at h
        · rename_i hb
          obtain rfl := eq_of_beq hb
          split at h
          · cases h
          · rename_i hc
            cases h
            exact .closeTag hc
        · rename_i slash
          split at h
          · cases h
          · rename_i hc
            cases h
            refine .openTag (fun hm => ?_) hc
            simp only [List.mem_cons, List.not_mem_nil, or_false] at hm
            rcases hm with rfl | rfl | rfl
            · exact bang (beq_self_eq_true _)
            · exact question (beq_self_eq_true _)
            · exact slash (beq_self_eq_true _)

/-- What is well formed is found. -/
theorem Found.scan_eq (h : Found bytes construct size) : scan bytes = .found construct size := by
  cases h with
  | openTag other hc =>
    simp only [List.mem_cons, List.not_mem_nil, or_false, not_or] at other
    simp only [scan, beq_eq_false_iff_ne.2 other.1, beq_eq_false_iff_ne.2 other.2.1,
      beq_eq_false_iff_ne.2 other.2.2, Bool.false_eq_true, if_false, hc]
  | closeTag hc =>
    have bang : (Byte.slash == Byte.bang) = false := by decide
    have question : (Byte.slash == Byte.question) = false := by decide
    simp only [scan, bang, question, Bool.false_eq_true, if_false, beq_self_eq_true, if_true, hc]
  | cdata hc starts =>
    show scanCdata _ = _
    rw [scanCdata, hc]
    simp only [starts, if_true]
  | @comment bytes content behind hc =>
    show scanComment (Byte.commentStart ++ bytes) = _
    have starts : Byte.commentStart.isPrefixOf (Byte.commentStart ++ bytes) = true :=
      List.isPrefixOf_iff_prefix.2 (List.prefix_append ..)
    rw [scanComment, List.drop_left, hc]
    simp only [starts, if_true]
  | @doctype b bytes content behind hb hc keyword named =>
    have scanned : scan (Byte.bang :: b :: bytes) = scanDoctype (b :: bytes) := by
      rcases hb with rfl | rfl <;> rfl
    rw [scanned, scanDoctype, hc]
    simp only [keyword, named, if_true, Bool.false_eq_true, if_false]
  | instruction hc filled =>
    show scanInstruction _ = _
    rw [scanInstruction, hc]
    simp only [List.isEmpty_eq_false_iff.2 filled, Bool.false_eq_true, if_false]

theorem Found.size_pos (h : Found bytes construct size) : 0 < size := by
  cases h with
  | instruction => exact Nat.add_pos_right _ (by decide)
  | openTag | closeTag | cdata | comment | doctype => omega

namespace Cursor

/-! ## Readings -/

/-- What a construct comes to inside given elements, wherever the cursor stands. -/
inductive Reading
  /-- An event, with the elements that are open behind it. -/
  | event (event : Event) (names : List (List UInt8))
  /-- An empty element, whose end tag waits. -/
  | emptyElement (tag : Tag)
  | ignored
  | faulty (fault : Fault) (names : List (List UInt8))

/-- The step of a cursor that stands behind the construct. -/
def Reading.of (r : Cursor) : Reading → Step × Cursor
  | .event e names => (.event e, { r with openNames := names })
  | .emptyElement tag => (.event (.startTag tag), { r with queuedEnd := some tag.name })
  | .ignored => (.ignored, r)
  | .faulty fault names => failedWith { r with openNames := names } fault

/-- A cursor brings nothing but its open elements to the reading of a construct. -/
theorem exists_reading (construct : Construct) (names : List (List UInt8)) :
    ∃ reading : Reading, ∀ r : Cursor, r.openNames = names →
      r.readConstruct construct = reading.of r := by
  cases construct with
  | openTag content =>
    by_cases empty : content.getLast? = some Byte.slash
    · cases ht : decodeTag content.dropLast with
      | ok tag =>
        refine ⟨.emptyElement tag, ?_⟩
        rintro r rfl
        simp only [readConstruct, readOpenTag, if_pos empty, ht]
        rfl
      | error fault =>
        refine ⟨.faulty fault names, ?_⟩
        rintro r rfl
        simp only [readConstruct, readOpenTag, if_pos empty, ht]
        rfl
    · cases ht : decodeTag content with
      | ok tag =>
        refine ⟨.event (.startTag tag) (content.takeWhile (!Byte.isSpace ·) :: names), ?_⟩
        rintro r rfl
        simp only [readConstruct, readOpenTag, if_neg empty, ht]
        rfl
      | error fault =>
        refine ⟨.faulty fault (content.takeWhile (!Byte.isSpace ·) :: names), ?_⟩
        rintro r rfl
        simp only [readConstruct, readOpenTag, if_neg empty, ht]
        rfl
  | closeTag content =>
    let name := endTagName content
    cases names with
    | nil =>
      refine ⟨.faulty (.unmatchedEnd (nameForMessage name)) [], fun r hr => ?_⟩
      simp only [readConstruct, readCloseTag, hr, Reading.of]
      rw [← hr]
    | cons top below =>
      by_cases other : (name != top) = true
      · refine ⟨.faulty (.mismatchedEnd (nameForMessage top) (nameForMessage name)) below, ?_⟩
        intro r hr
        simp only [readConstruct, readCloseTag, hr, Reading.of]
        exact if_pos other
      · cases hn : decodeName name with
        | ok decoded =>
          refine ⟨.event (.endTag decoded) below, fun r hr => ?_⟩
          simp only [readConstruct, readCloseTag, hr, Reading.of]
          rw [if_neg other, hn]
        | error fault =>
          refine ⟨.faulty fault below, fun r hr => ?_⟩
          simp only [readConstruct, readCloseTag, hr, Reading.of]
          rw [if_neg other, hn]
  | cdata content =>
    cases hc : decodeName content with
    | ok decoded =>
      refine ⟨.event (.cdata decoded) names, ?_⟩
      rintro r rfl
      simp only [readConstruct, hc]
      rfl
    | error fault =>
      refine ⟨.faulty fault names, ?_⟩
      rintro r rfl
      simp only [readConstruct, hc]
      rfl
  | ignored => exact ⟨.ignored, fun r _ => rfl⟩

/-! ## Steps -/

/-- The next construct of a complete document, and what it comes to. -/
inductive Meets (r : Cursor) : Step × Cursor → Prop
  | ended : r.rest = [] → Meets r (.ended, r)
  /-- A stretch of text reaches up to a bracket, or to the end of the document. -/
  | text {bytes behind : List UInt8} {content : String} : r.rest = bytes ++ behind → bytes ≠ [] →
      Byte.less ∉ bytes → Bracketed behind → decodeContent bytes = .ok content →
      Meets r (.event (.text content), r.movedBy bytes.length)
  | badText {bytes behind : List UInt8} {fault : Fault} : r.rest = bytes ++ behind → bytes ≠ [] →
      Byte.less ∉ bytes → Bracketed behind → decodeContent bytes = .error fault →
      Meets r ((r.movedBy bytes.length).failedWith fault)
  | construct {bytes : List UInt8} {construct : Construct} {size : Nat} :
      r.rest = Byte.less :: bytes → scan bytes = .found construct size →
      Meets r ((r.movedBy (size + 1)).readConstruct construct)
  | faulty {bytes : List UInt8} {fault : Fault} {size : Nat} :
      r.rest = Byte.less :: bytes → scan bytes = .faulty fault size →
      Meets r ((r.movedBy (size + 1)).failedWith fault)
  | unfinished {bytes : List UInt8} {construct : Delimited} :
      r.rest = Byte.less :: bytes → scan bytes = .unfinished construct →
      Meets r ((r.stopped r.rest.length).failedWith (.unclosed construct))
  | undeclared {bytes : List UInt8} :
      r.rest = Byte.less :: bytes → scan bytes = .bareBang ∨ scan bytes = .unknownDeclaration →
      Meets r ((r.stopped 1).failedWith .unknownDeclaration)

variable {r : Cursor} {bytes behind : List UInt8} {out : Step × Cursor}

theorem exhausted_complete (hc : r.ending = .complete) (n : Nat) (complete : Step × Cursor) :
    r.exhausted n complete = complete := by
  rw [exhausted, hc]

theorem step_nil (hc : r.ending = .complete) (hr : r.rest = []) : r.step = (.ended, r) := by
  rw [step, hr]
  exact exhausted_complete hc _ _

theorem step_text (hc : r.ending = .complete) (hr : r.rest = bytes ++ behind) (filled : bytes ≠ [])
    (plain : Byte.less ∉ bytes) (hb : Bracketed behind) : r.step =
      match decodeContent bytes with
      | .ok content => (.event (.text content), r.movedBy bytes.length)
      | .error fault => (r.movedBy bytes.length).failedWith fault := by
  have inside : ∀ b ∈ bytes, (b != Byte.less) = true := by
    intro b hm
    rw [bne_iff_ne]
    rintro rfl
    exact plain hm
  have stop : ∀ b ∈ behind.head?, (b != Byte.less) = false := by
    intro b hm
    rw [hb b hm]
    rfl
  have taken : r.textBytes = bytes := by
    rw [textBytes, hr, (span_of_stop inside stop).1]
  obtain ⟨first, more, rfl⟩ := List.exists_cons_of_ne_nil filled
  have begins : (first != Byte.less) = true := inside first List.mem_cons_self
  have read : r.step = r.readText := by
    rw [step, hr, List.cons_append]
    exact if_pos begins
  have stretch : r.readText = r.readStretch := by
    rw [readText, exhausted_complete hc, ite_self]
  rw [read, stretch, ← taken]
  rfl

theorem step_less (hc : r.ending = .complete) (hr : r.rest = Byte.less :: bytes) : r.step =
    match scan bytes with
    | .found construct size => (r.movedBy (size + 1)).readConstruct construct
    | .faulty fault size => (r.movedBy (size + 1)).failedWith fault
    | .unfinished construct => (r.stopped r.rest.length).failedWith (.unclosed construct)
    | .bareBang | .unknownDeclaration => (r.stopped 1).failedWith .unknownDeclaration := by
  have less : (Byte.less != Byte.less) = false := by decide
  rw [step, hr]
  cases hs : scan bytes <;> simp only [less, hs, Bool.false_eq_true, if_false, exhausted_complete hc]

/-! ## Rules and steps -/

theorem meets_step (hc : r.ending = .complete) : r.Meets r.step := by
  have parted : r.rest = r.textBytes ++ r.markupBytes := List.takeWhile_append_dropWhile.symm
  have plain : Byte.less ∉ r.textBytes := by
    intro hm
    have all : r.textBytes.all (· != Byte.less) = true := List.all_takeWhile
    exact absurd (List.all_eq_true.1 all _ hm) (by decide)
  have bracketed : Bracketed r.markupBytes := by
    intro b hb
    have stop := List.head?_dropWhile_not (· != Byte.less) r.rest
    rw [show r.rest.dropWhile (· != Byte.less) = r.markupBytes from rfl, hb] at stop
    simpa using stop
  by_cases filled : r.textBytes = []
  · rw [filled, List.nil_append] at parted
    cases hr : r.rest with
    | nil => exact step_nil hc hr ▸ .ended hr
    | cons b bytes =>
      obtain rfl : b = Byte.less := bracketed b (by rw [← parted, hr]; rfl)
      have step := step_less hc hr
      cases hs : scan bytes <;> rw [hs] at step <;> rw [step]
      · exact .construct hr hs
      · exact .faulty hr hs
      · exact .unfinished hr hs
      · exact .undeclared hr (.inl hs)
      · exact .undeclared hr (.inr hs)
  · have step := step_text hc parted filled plain bracketed
    cases hd : decodeContent r.textBytes <;> rw [hd] at step <;> rw [step]
    · exact .badText parted filled plain bracketed hd
    · exact .text parted filled plain bracketed hd

/-- A rule determines the step. -/
theorem Meets.step_eq (h : r.Meets out) (hc : r.ending = .complete) : r.step = out := by
  cases h with
  | ended hr => exact step_nil hc hr
  | text hr filled plain hb hd => rw [step_text hc hr filled plain hb, hd]
  | badText hr filled plain hb hd => rw [step_text hc hr filled plain hb, hd]
  | construct hr hs => rw [step_less hc hr, hs]
  | faulty hr hs => rw [step_less hc hr, hs]
  | unfinished hr hs => rw [step_less hc hr, hs]
  | undeclared hr hs => rcases hs with hs | hs <;> rw [step_less hc hr, hs]

/-! ## Pulls -/

/-- What is passed over does not bear on what is read. -/
theorem read_of_ignored {r' : Cursor} (h : r.step = (.ignored, r')) : r.read = r'.read := by
  conv => lhs; rw [read]
  split <;> rename_i hs <;> cases h.symm.trans hs
  rfl

theorem read_of_failed {r' : Cursor} {failure : Failure} (h : r.step = (.failed failure, r')) :
    r.read = (.error failure, r') := by
  rw [read]
  split <;> rename_i hs <;> cases h.symm.trans hs
  rfl

theorem next_queued {name : String} (hq : r.queuedEnd = some name) :
    EventStream.next r = (.ok (some (.endTag name)), { r with queuedEnd := none }) := by
  show r.next = _
  rw [next, hq]

theorem next_unqueued (hq : r.queuedEnd = none) : EventStream.next r = r.read := by
  show r.next = _
  rw [next, hq]

/-- At its end a document stays. -/
theorem next_nil (hc : r.ending = .complete) (hq : r.queuedEnd = none) (hr : r.rest = []) :
    EventStream.next r = (.ok none, r) := by
  rw [next_unqueued hq]
  exact read_of_ended (step_nil hc hr)

end Cursor

end SubtreeHarvest.Markup

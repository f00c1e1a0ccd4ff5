/-
What a fragment writes is read back. Behind each construct the cursor stands at what was written
next, with the names of the elements around it open; a text that is still to come is read together
with the texts behind it, so what is answered is the settled forest.

The proof goes along the forest with the text read so far as a parameter. What follows a forest
must begin with a bracket or be nothing, or else it would go on with the last text.
-/
import SubtreeHarvest.Proofs.Forest.Settled
import SubtreeHarvest.Proofs.Stream
import SubtreeHarvest.Markup.Cursor

namespace SubtreeHarvest

namespace Markup

open Text Utf8

/-! ## Constructs -/

theorem encode_endTag (name : String) : encode (Event.endTag name).written =
    Byte.less :: Byte.slash :: (encode name ++ [Byte.greater]) := by
  have opening : encode "</" = [Byte.less, Byte.slash] := by decide
  have closing : encode ">" = [Byte.greater] := by decide
  rw [Event.written, encode_append, encode_append, opening, closing]
  simp only [List.cons_append, List.nil_append]

theorem encode_cdata (content : String) : encode (Event.cdata content).written =
    Byte.less :: Byte.bang :: (Byte.cdataStart ++ encode (trim content) ++ Byte.cdataEnd) := by
  have opening : encode "<![CDATA[" = Byte.less :: Byte.bang :: Byte.cdataStart := by decide
  have closing : encode "]]>" = Byte.cdataEnd := by decide
  rw [Event.written, encode_append, encode_append, opening, closing]
  simp only [List.append_assoc, List.cons_append]

variable {tag : Tag} {name : String} {rest : List UInt8}

theorem scan_startTag (h : tag.Writable) : scan (tag.content ++ Byte.greater :: rest) =
    .found (.openTag tag.content) (tag.content.length + 1) := by
  obtain ⟨first, more, hn⟩ := encode_name h.name
  obtain ⟨inside, hi⟩ : ∃ inside, tag.content = first :: inside := ⟨_, by rw [Tag.content, hn]; rfl⟩
  -- a plain name begins with none of the bytes that introduce other constructs
  have other {b : UInt8} (hb : b ∈ tagMarks) : (first == b) = false := by
    rw [beq_eq_false_iff_ne]
    rintro rfl
    apply not_mem_name h.name hb
    rw [hn]
    exact List.mem_cons_self
  have closing := h.closed.cutTag rest
  rw [hi, List.cons_append] at closing ⊢
  rw [scan, other (by decide), other (by decide), other (by decide)]
  simp only [Bool.false_eq_true, if_false, closing]

theorem scan_endTag (h : isName name = true) :
    scan (Byte.slash :: (encode name ++ Byte.greater :: rest)) =
      .found (.closeTag (encode name)) (1 + (encode name).length + 1) := by
  have bang : (Byte.slash == Byte.bang) = false := by decide
  have question : (Byte.slash == Byte.question) = false := by decide
  rw [scan, bang, question]
  simp only [Bool.false_eq_true, if_false, beq_self_eq_true, if_true, (closed_name h).cutTag rest]

/-- A content without the end mark does not come to hold one with what is written around it. -/
theorem not_isInfix_cdataEnd {content : String} (h : ¬ "]]>".toList <:+: content.toList) :
    ¬ Byte.cdataEnd <:+: Byte.cdataStart ++ encode content ++ Byte.cdataEnd.dropLast := by
  intro inside
  rw [List.append_assoc] at inside
  have behind : Byte.cdataEnd <:+: encode content ++ Byte.cdataEnd.dropLast :=
    infix_of_append (by decide : 0x5D ∉ Byte.cdataStart) inside
  have ends : Byte.cdataEnd = [0x5D, 0x5D] ++ [0x3E] := rfl
  have before : Byte.cdataEnd <:+: encode content := by
    rw [ends] at behind ⊢
    exact infix_of_append_front (by decide) behind
  have small : Byte.cdataEnd.all (·.toNat < 0x80) = true := by decide
  refine h (infix_of_bytes (fun b hb => ?_) before)
  exact of_decide_eq_true (List.all_eq_true.1 small b hb)

theorem scan_cdata {content : String} (h : ¬ "]]>".toList <:+: content.toList) :
    scan (Byte.bang :: (Byte.cdataStart ++ encode content ++ Byte.cdataEnd ++ rest)) =
      .found (.cdata (encode content))
        (1 + (Byte.cdataStart ++ encode content).length + Byte.cdataEnd.length) := by
  have found : cut Byte.cdataEnd (Byte.cdataStart ++ encode content ++ Byte.cdataEnd ++ rest) =
      some (Byte.cdataStart ++ encode content, rest) :=
    cut_of_first (by decide) (not_isInfix_cdataEnd h)
  have starts : Byte.cdataStart.isPrefixOf (Byte.cdataStart ++ encode content) = true :=
    List.isPrefixOf_iff_prefix.2 (List.prefix_append ..)
  show scanCdata (Byte.cdataStart ++ encode content ++ Byte.cdataEnd ++ rest) = _
  rw [scanCdata, found]
  simp only [starts, if_true, List.drop_left]

/-! ## Reading on -/

namespace Cursor

open EventStream

theorem read_of_event {r r' : Cursor} {event : Event} (h : r.step = (.event event, r')) :
    r.read = (.ok (some event), r') := by
  rw [read]
  split <;> rename_i he <;> cases h.symm.trans he
  rfl

theorem read_of_ended {r r' : Cursor} (h : r.step = (.ended, r')) : r.read = (.ok none, r') := by
  rw [read]
  split <;> rename_i he <;> cases h.symm.trans he
  rfl

/-- A cursor in a complete document, with nothing read ahead. -/
def standing (position : Nat) (names : List (List UInt8)) (rest : List UInt8) : Cursor :=
  ⟨rest, .complete, position, names, none⟩

/-- Behind the last byte a complete document ends, and it stays at its end. -/
theorem next_standing_nil (p : Nat) (names : List (List UInt8)) :
    EventStream.next (standing p names []) = (.ok none, standing p names []) := by
  show (standing p names []).read = _
  apply read_of_ended
  rfl

/-- From `rest`, with `names` open, the events are read up to `rest'`, with `names'` open. -/
def Reads (names : List (List UInt8)) (rest : List UInt8) (events : List Event)
    (names' : List (List UInt8)) (rest' : List UInt8) : Prop :=
  ∀ p, ∃ p', Answers (standing p names rest) events (standing p' names' rest')

theorem Reads.nil (names : List (List UInt8)) (rest : List UInt8) : Reads names rest [] names rest :=
  fun p => ⟨p, rfl⟩

theorem Reads.append {names names' names'' : List (List UInt8)} {rest rest' rest'' : List UInt8}
    {events more : List Event} (h : Reads names rest events names' rest')
    (h' : Reads names' rest' more names'' rest'') :
    Reads names rest (events ++ more) names'' rest'' := by
  intro p
  obtain ⟨q, hq⟩ := h p
  obtain ⟨p', hp⟩ := h' q
  exact ⟨p', (answers_append ..).2 ⟨_, hq, hp⟩⟩

/-- One construct that is an event is the next event. -/
theorem reads_of_step {names names' : List (List UInt8)} {rest rest' : List UInt8} {event : Event}
    (h : ∀ p, ∃ p', (standing p names rest).step = (.event event, standing p' names' rest')) :
    Reads names rest [event] names' rest' := by
  intro p
  obtain ⟨p', hp⟩ := h p
  refine ⟨p', ?_⟩
  rw [answers_singleton]
  show (standing p names rest).read = _
  exact read_of_event hp

/-- A construct that is found behind a bracket is the next event if it comes to one. -/
theorem reads_of_scan {names names' : List (List UInt8)} {written rest : List UInt8}
    {construct : Construct} {size : Nat} {event : Event}
    (hs : scan (written ++ rest) = .found construct size) (hl : size = written.length)
    (hr : ∀ p, (standing p names rest).readConstruct construct = (.event event, standing p names' rest)) :
    Reads names (Byte.less :: (written ++ rest)) [event] names' rest := by
  apply reads_of_step
  intro p
  refine ⟨p + (size + 1), ?_⟩
  have less : (Byte.less != Byte.less) = false := by decide
  have left : (Byte.less :: (written ++ rest)).drop (size + 1) = rest := by
    rw [List.drop_succ_cons, hl, List.drop_left]
  rw [← hr]
  simp only [step, standing, less, Bool.false_eq_true, if_false, hs, movedBy, left]

variable {names : List (List UInt8)} {tag : Tag} {name content : String} {rest : List UInt8}

theorem reads_startTag (h : tag.Writable) : Reads names (encode (Event.startTag tag).written ++ rest)
    [.startTag tag] (encode tag.name :: names) rest := by
  have found : scan ((tag.content ++ [Byte.greater]) ++ rest) =
      .found (.openTag tag.content) (tag.content.length + 1) := by
    rw [List.append_assoc]
    exact scan_startTag h
  rw [Tag.encode_written, List.cons_append]
  refine reads_of_scan found (by simp) ?_
  intro p
  simp only [readConstruct, readOpenTag, if_neg h.getLast?_content, h.decodeTag, h.span_content.1]
  rfl

/-- No space is taken off a plain name. -/
theorem endTagName_name (h : isName name = true) : endTagName (encode name) = encode name := by
  obtain ⟨first, more, hn⟩ := encode_name h
  have black := isSpace_name h
  have filled : (encode name).all Byte.isSpace = false := by
    rw [hn, List.all_cons, black first (hn ▸ List.mem_cons_self), Bool.false_and]
  have last : ∀ b ∈ (encode name).reverse.head?, Byte.isSpace b = false := by
    intro b hb
    exact black b (List.mem_reverse.1 (List.mem_of_head? hb))
  have kept : (encode name).reverse.dropWhile Byte.isSpace = (encode name).reverse :=
    (@span_of_stop _ Byte.isSpace [] (fun _ h => nomatch h) _ last).2
  rw [endTagName, filled, if_neg Bool.false_ne_true, kept, List.reverse_reverse]

theorem reads_endTag (h : isName name = true) : Reads (encode name :: names)
    (encode (Event.endTag name).written ++ rest) [.endTag name] names rest := by
  have found : scan (Byte.slash :: (encode name ++ [Byte.greater]) ++ rest) =
      .found (.closeTag (encode name)) (1 + (encode name).length + 1) := by
    rw [List.cons_append, List.append_assoc]
    exact scan_endTag h
  rw [encode_endTag, List.cons_append]
  refine reads_of_scan found (by simp [Nat.add_comm]) ?_
  intro p
  simp only [readConstruct, readCloseTag, endTagName_name h, standing, bne_self_eq_false,
    Bool.false_eq_true, if_false, decodeName_encode]

theorem reads_cdata (h : ¬ "]]>".toList <:+: content.toList) : Reads names
    (encode (Event.cdata content).written ++ rest) [.cdata (trim content)] names rest := by
  have without : ¬ "]]>".toList <:+: (trim content).toList := by
    rw [Forest.toList_trim]
    intro inside
    exact h (inside.trans (isInfix_trimmed _))
  rw [encode_cdata, List.cons_append]
  refine reads_of_scan (scan_cdata without) (by simp; omega) ?_
  intro p
  simp only [readConstruct, decodeName_encode]

/-! ## Texts -/

/-- Nothing that a text in front could go on with. -/
def Bracketed (rest : List UInt8) : Prop :=
  ∀ b ∈ rest.head?, b = Byte.less

theorem less_not_mem_text (cs : List Char) : Byte.less ∉ bytes (cs.flatMap textEscape) :=
  not_mem_escaped (by decide) less_not_mem_textEscape cs

theorem reads_text {cs : List Char} (filled : cs ≠ []) (hr : Bracketed rest) :
    Reads names (bytes (cs.flatMap textEscape) ++ rest) [.text (String.ofList cs)] names rest := by
  have inside : ∀ b ∈ bytes (cs.flatMap textEscape), (b != Byte.less) = true := by
    intro b hb
    rw [bne_iff_ne]
    rintro rfl
    exact less_not_mem_text cs hb
  have stop : ∀ b ∈ rest.head?, (b != Byte.less) = false := by
    intro b hb
    rw [hr b hb]
    rfl
  obtain ⟨taken, left⟩ := span_of_stop inside stop
  apply reads_of_step
  intro p
  refine ⟨p + (bytes (cs.flatMap textEscape)).length, ?_⟩
  have stretch : (standing p names (bytes (cs.flatMap textEscape) ++ rest)).readStretch =
      (.event (.text (String.ofList cs)),
        standing (p + (bytes (cs.flatMap textEscape)).length) names rest) := by
    simp only [readStretch, textBytes, standing, taken, decodeContent_written stands_textEscape, movedBy,
      List.drop_left]
  have written : cs.flatMap textEscape ≠ [] := by
    obtain ⟨c, ds, rfl⟩ := List.exists_cons_of_ne_nil filled
    rw [List.flatMap_cons]
    exact List.append_ne_nil_of_left_ne_nil (stands_textEscape c).ne_nil _
  obtain ⟨b, more, hb⟩ := List.exists_cons_of_ne_nil (bytes_ne_nil written)
  have text : (b != Byte.less) = true := inside b (hb ▸ List.mem_cons_self)
  -- a complete document may end in the text: that changes nothing
  have same : (standing p names (bytes (cs.flatMap textEscape) ++ rest)).step =
      (standing p names (bytes (cs.flatMap textEscape) ++ rest)).readStretch := by
    rw [step, standing, hb]
    simp only [List.cons_append, text, if_true, readText]
    split <;> rfl
  rw [same, stretch]

/-- A text is read as its event, and an empty one as none. -/
theorem reads_textEvents {s : String} (hr : Bracketed rest) :
    Reads names (bytes (s.toList.flatMap textEscape) ++ rest) (Forest.textEvents s) names rest := by
  unfold Forest.textEvents
  split
  · rename_i empty
    rw [empty]
    exact Reads.nil names rest
  · rename_i other
    have filled : s.toList ≠ [] := by
      intro h
      exact other (String.toList_eq_nil_iff.1 h)
    have text : Reads names _ [.text (String.ofList s.toList)] names rest := reads_text filled hr
    rwa [String.ofList_toList] at text

/-! ## Forests -/

theorem bracketed_cons (more : List UInt8) : Bracketed (Byte.less :: more) :=
  forall_head? rfl

theorem Reads.of_prependText {forest : Forest} {written : List UInt8}
    (h : Reads names (bytes ("".toList.flatMap textEscape) ++ written)
      (forest.prependText "").events names rest) :
    Reads names written forest.events names rest := by
  rwa [Forest.prependText_empty] at h

/-- The settled forest is read from what is written for a forest, joined to the text in front. -/
theorem reads_forest : ∀ (forest : Forest) (s : String) {names : List (List UInt8)}
    {rest : List UInt8}, forest.Writable → Bracketed rest →
      Reads names (bytes (s.toList.flatMap textEscape) ++ (encode (Event.writtenAll forest.events) ++ rest))
        (forest.settled.prependText s).events names rest
  | .empty, s, names, rest, _, hr => by
    rw [Forest.settled, Forest.events_prependText s (fun _ _ => Forest.noConfusion), Forest.events,
      List.append_nil]
    exact reads_textEvents hr
  | .text content behind, s, names, rest, hw, hr => by
    -- the text is not read yet: it joins the one in front, and goes on with what is behind
    have joined : bytes (s.toList.flatMap textEscape) ++
        (encode (Event.writtenAll (Forest.text content behind).events) ++ rest) =
        bytes ((s ++ trim content).toList.flatMap textEscape) ++
          (encode (Event.writtenAll behind.events) ++ rest) := by
      rw [Forest.events, Event.writtenAll, Event.written, encode_append, encode_ofList,
        String.toList_append, Forest.toList_trim, List.flatMap_append, bytes_append]
      simp only [List.append_assoc]
    rw [joined, Forest.settled, Forest.prependText_prependText]
    exact reads_forest behind (s ++ trim content) hw hr
  | .cdata content behind, s, names, rest, ⟨without, hw⟩, hr => by
    have parted : encode (Event.writtenAll (Forest.cdata content behind).events) ++ rest =
        encode (Event.cdata content).written ++ (encode (Event.writtenAll behind.events) ++ rest) := by
      rw [Forest.events, Event.writtenAll, encode_append, List.append_assoc]
    -- a bracket ends the text in front
    have mark : Bracketed (encode (Event.cdata content).written ++
        (encode (Event.writtenAll behind.events) ++ rest)) := by
      rw [encode_cdata]
      exact bracketed_cons _
    have after : Reads names _ behind.settled.events names rest :=
      (reads_forest behind "" hw hr).of_prependText
    rw [parted, Forest.settled, Forest.events_prependText s (fun _ _ => Forest.noConfusion)]
    exact (reads_textEvents mark).append ((reads_cdata without).append after)
  | .element tag inside behind, s, names, rest, ⟨ht, hi, hb⟩, hr => by
    have parted : encode (Event.writtenAll (Forest.element tag inside behind).events) ++ rest =
        encode (Event.startTag tag).written ++ (encode (Event.writtenAll inside.events) ++
          (encode (Event.endTag tag.name).written ++
            (encode (Event.writtenAll behind.events) ++ rest))) := by
      simp only [Forest.events, Event.writtenAll, Event.writtenAll_append, encode_append,
        List.append_assoc]
    -- brackets end the text in front and the last text inside
    have opening (more : List UInt8) : Bracketed (encode (Event.startTag tag).written ++ more) := by
      rw [Tag.encode_written]
      exact bracketed_cons _
    have closing (more : List UInt8) : Bracketed (encode (Event.endTag tag.name).written ++ more) := by
      rw [encode_endTag]
      exact bracketed_cons _
    have inner : Reads (encode tag.name :: names) _ inside.settled.events _ _ :=
      (reads_forest inside "" hi (closing (encode (Event.writtenAll behind.events) ++ rest))).of_prependText
    have after : Reads names _ behind.settled.events names rest :=
      (reads_forest behind "" hb hr).of_prependText
    rw [parted, Forest.settled, Forest.events_prependText s (fun _ _ => Forest.noConfusion)]
    exact (reads_textEvents (opening _)).append
      ((reads_startTag ht).append (inner.append ((reads_endTag ht.name).append after)))

end Cursor

end Markup

end SubtreeHarvest

/-
What a fragment writes is a document. From the text of an element that a document can understand,
one tree is read: the element with the name and attributes of its start tag, and the texts in it
joined are the contents of its events, trimmed.

Reading goes from one rest of the text to the next, with the elements that are open around it. A text
is not read before what follows it is known to begin with a bracket, so texts that stand side by side
are read together.
-/
import SubtreeHarvest.Document.Nesting
import SubtreeHarvest.Proofs.Document.Token
import SubtreeHarvest.Proofs.Forest.Basic
import SubtreeHarvest.Proofs.Text.Trimmed

namespace SubtreeHarvest

namespace Document

open Text Markup Document.Tree

/-! ## Reading on -/

/-- A document read on to the end of some characters. -/
def readOn? (nesting : Nesting) (cs : List Char) : Option Nesting :=
  (tokens? cs).bind fun tokens => tokens.foldlM Nesting.step? nesting

variable {nesting nesting' : Nesting}

theorem readOn?_nil (nesting : Nesting) : readOn? nesting [] = some nesting := by
  rw [readOn?, tokens?]
  rfl

/-- One token is read, then the others. -/
theorem readOn?_cons {c : Char} {cs behind : List Char} {token : Token}
    (ht : token? c cs = some (token, behind)) :
    readOn? nesting (c :: cs) = (nesting.step? token).bind (readOn? · behind) := by
  rw [readOn?, tokens?]
  split
  · rename_i he
    cases ht.symm.trans he
    simp only [readOn?]
    cases tokens? behind with
    | none => cases nesting.step? token <;> rfl
    | some tokens => exact List.foldlM_cons
  · rename_i he
    cases ht.symm.trans he

theorem readOn?_token {c : Char} {cs behind : List Char} {token : Token}
    (ht : token? c cs = some (token, behind)) (hs : nesting.step? token = some nesting') :
    readOn? nesting (c :: cs) = readOn? nesting' behind := by
  rw [readOn?_cons ht, hs, Option.bind_some]

theorem readOn?_of_token?_none {c : Char} {cs : List Char} (h : token? c cs = none) :
    readOn? nesting (c :: cs) = none := by
  rw [readOn?, tokens?]
  split
  · rename_i he
    cases h.symm.trans he
  · rfl

/-- The open element with some more trees at the end of what it holds. -/
def Frame.push (frame : Frame) (trees : List Tree) : Frame :=
  { frame with children := trees.reverse ++ frame.children }

variable {top : List Tree} {frame inner : Frame} {around : List Frame}

theorem Frame.push_push (frame : Frame) (trees more : List Tree) :
    (frame.push trees).push more = frame.push (trees ++ more) := by
  simp only [push, List.reverse_append, List.append_assoc]

theorem Frame.push_cons (frame : Frame) (tree : Tree) (trees : List Tree) :
    (frame.push [tree]).push trees = frame.push (tree :: trees) :=
  frame.push_push [tree] trees

/-- One more tree in an element is pushed to what it holds. -/
theorem add_inside (tree : Tree) : Nesting.add ⟨top, frame :: around, true⟩ tree =
    ⟨top, frame.push [tree] :: around, true⟩ := rfl

theorem forestTexts_append : ∀ trees more : List Tree,
    forestTexts (trees ++ more) = forestTexts trees ++ forestTexts more
  | [], more => by rw [List.nil_append, forestTexts, String.empty_append]
  | tree :: trees, more => by
    rw [List.cons_append, forestTexts, forestTexts, forestTexts_append trees more, String.append_assoc]

/-! ## Texts -/

theorem flatMap_plain : ∀ {run : List Char}, (∀ c ∈ run, isPlainChar c = true) →
    run.flatMap textEscape = run
  | [], _ => rfl
  | c :: run, h => by
    obtain ⟨plain, h⟩ := List.forall_mem_cons.1 h
    rw [List.flatMap_cons, textEscape_plain plain, flatMap_plain h]
    rfl

/-- What is written behind a run of plain characters ends the run. -/
theorem ends_run {cs rest : List Char} (hc : ∀ c ∈ cs.head?, isPlainChar c = false) (hr : OpensMarkup rest) :
    ∀ c ∈ (cs.flatMap textEscape ++ rest).head?, isRunChar c = false := by
  cases cs with
  | nil =>
    intro c h
    rw [hr c h]
    rfl
  | cons d cs =>
    obtain ⟨body, written, -, -⟩ := textEscape_reference (hc d rfl)
    rw [List.flatMap_cons, written]
    exact forall_head? (by decide)

/-- A text in an element is read as texts that say the same. -/
theorem readOn?_text {rest : List Char} (hr : OpensMarkup rest) (frame : Frame) : ∀ cs : List Char, ∃ trees,
    readOn? ⟨top, frame :: around, true⟩ (cs.flatMap textEscape ++ rest) =
      readOn? ⟨top, frame.push trees :: around, true⟩ rest ∧ forestTexts trees = String.ofList cs
  | [] => ⟨[], rfl, rfl⟩
  | c :: cs => by
    cases plain : isPlainChar c with
    | false =>
      obtain ⟨body, written, inside, stands⟩ := textEscape_reference plain
      obtain ⟨trees, read, said⟩ := readOn?_text hr (frame.push [.text (String.singleton c)]) cs
      refine ⟨.text (String.singleton c) :: trees, ?_, ?_⟩
      · rw [List.flatMap_cons, written, List.cons_append, List.cons_append, List.append_assoc,
          readOn?_token (token?_reference inside stands _) rfl, add_inside, read, Frame.push_cons]
      · rw [forestTexts, said, texts, String.ofList_cons]
    | true =>
      -- the run goes on to the first character that is not plain, or to the end
      have parted := List.takeWhile_append_dropWhile (p := isPlainChar) (l := cs)
      have run : ∀ d ∈ cs.takeWhile isPlainChar, isPlainChar d = true := fun d hd =>
        List.all_eq_true.1 List.all_takeWhile d hd
      have ended : ∀ d ∈ (cs.dropWhile isPlainChar).head?, isPlainChar d = false := fun d hd => by
        have stop := List.head?_dropWhile_not isPlainChar cs
        rw [hd] at stop
        exact stop
      have written : (c :: cs).flatMap textEscape ++ rest = c :: (cs.takeWhile isPlainChar ++
          ((cs.dropWhile isPlainChar).flatMap textEscape ++ rest)) := by
        rw [List.flatMap_cons, textEscape_plain plain, ← flatMap_plain run, ← List.append_assoc,
          ← List.flatMap_append, parted]
        rfl
      obtain ⟨trees, read, said⟩ := readOn?_text hr
        (frame.push [.text (String.ofList (c :: cs.takeWhile isPlainChar))]) (cs.dropWhile isPlainChar)
      refine ⟨.text (String.ofList (c :: cs.takeWhile isPlainChar)) :: trees, ?_, ?_⟩
      · rw [written, readOn?_token (token?_run plain run (ends_run ended hr)) rfl, add_inside, read,
          Frame.push_cons]
      · rw [forestTexts, said, texts, ← String.ofList_append, List.cons_append, parted]
termination_by cs => cs.length
decreasing_by
  all_goals simp only [List.length_cons]
  · omega
  · have := (List.dropWhile_suffix isPlainChar (l := cs)).length_le
    omega

/-! ## Elements -/

/-- The element that a start tag opens in a scope, if a document can understand the tag. -/
def Opens (scope : Scope) (tag : Tag) (frame : Frame) : Prop :=
  ∃ name fields, Spells tag name fields ∧ Frame.begin? scope name fields = some frame

theorem Opens.worded {scope : Scope} {tag : Tag} (h : Opens scope tag frame) : Worded tag := by
  obtain ⟨name, fields, spells, -⟩ := h
  exact spells.worded

/-- The element that begins at a tag is spelled like the tag and holds nothing yet. -/
theorem begin?_eq_some {scope : Scope} {name : QualifiedName} {fields : List (QualifiedName × String)}
    (h : Frame.begin? scope name fields = some frame) : frame.spelled = name ∧ frame.children = [] := by
  simp only [Frame.begin?, Option.bind_eq_bind, Option.bind_eq_some_iff] at h
  obtain ⟨_, -, _, -, _, -, h⟩ := h
  cases h
  exact ⟨rfl, rfl⟩

theorem toList_endTag (name : String) :
    (Event.endTag name).written.toList = '<' :: '/' :: (name.toList ++ ['>']) := by
  have opening : "</".toList = ['<', '/'] := rfl
  have closing : ">".toList = ['>'] := rfl
  rw [Event.written, String.toList_append, String.toList_append, opening, closing]
  rfl

theorem toList_cdata (content : String) : (Event.cdata content).written.toList =
    '<' :: ("![CDATA[".toList ++ trimmed content.toList ++ "]]>".toList) := by
  rw [Event.written, String.toList_append, String.toList_append, trim,
    @String.toList_ofList (trimmed content.toList)]
  rfl

variable {scope : Scope} {tag : Tag} {rest : List Char}

/-- Where no element has ended yet, a start tag opens the element that it can open there. -/
theorem readOn?_startTag (nesting : Nesting) (h : Opens nesting.scope tag inner)
    (root : (nesting.frames.isEmpty && nesting.hasRoot) = false) :
    readOn? nesting ((Event.startTag tag).written.toList ++ rest) =
      readOn? ⟨nesting.top, inner :: nesting.frames, true⟩ rest := by
  obtain ⟨name, fields, spells, begins⟩ := h
  have step : nesting.step? (.openTag name fields false) =
      some ⟨nesting.top, inner :: nesting.frames, true⟩ := by
    simp only [Nesting.step?, root, begins, Bool.false_eq_true, if_false, Option.bind_eq_bind,
      Option.bind_some]
  rw [toList_startTag, List.cons_append, List.append_assoc, List.singleton_append]
  exact readOn?_token (token?_startTag spells rest) step

/-- The end tag of an element closes it, with all that was pushed to it. -/
theorem readOn?_endTag (h : Opens scope tag inner) (trees : List Tree) :
    readOn? ⟨top, inner.push trees :: around, true⟩ ((Event.endTag tag.name).written.toList ++ rest) =
      readOn? (Nesting.add ⟨top, around, true⟩
        (.element inner.name inner.attributes inner.declared trees)) rest := by
  obtain ⟨name, fields, spells, begins⟩ := h
  obtain ⟨spelled, new⟩ := begin?_eq_some begins
  have closed : (inner.push trees).tree = .element inner.name inner.attributes inner.declared trees := by
    simp only [Frame.tree, Frame.push, new, List.append_nil, List.reverse_reverse]
  have step : Nesting.step? ⟨top, inner.push trees :: around, true⟩ (.closeTag name) =
      some (Nesting.add ⟨top, around, true⟩ (inner.push trees).tree) := if_pos spelled
  rw [closed] at step
  rw [toList_endTag, List.cons_append, List.cons_append, List.append_assoc, List.singleton_append]
  exact readOn?_token (token?_endTag spells.head rest) step

/-- A character data section in an element is a text of its own. -/
theorem readOn?_cdata {content : String} (h : ¬ "]]>".toList <:+: content.toList) :
    readOn? ⟨top, frame :: around, true⟩ ((Event.cdata content).written.toList ++ rest) =
      readOn? ⟨top, frame.push [.text (trim content)] :: around, true⟩ rest := by
  have without : ¬ "]]>".toList <:+: trimmed content.toList := fun inside =>
    h (inside.trans (isInfix_trimmed _))
  rw [toList_cdata, List.cons_append]
  exact readOn?_token (token?_cdata without rest) rfl

end Document

/-! ## Forests -/

namespace Forest

open Document Text

/-- A document can understand the forest in a scope: each tag opens an element in the scope of the
element around it, and no character data section holds the mark that ends one. -/
def Readable (scope : Scope) : Forest → Prop
  | .empty => True
  | .element tag inside behind =>
    (∃ frame, Opens scope tag frame ∧ inside.Readable frame.scope) ∧ behind.Readable scope
  | .text _ behind => behind.Readable scope
  | .cdata content behind => ¬ "]]>".toList <:+: content.toList ∧ behind.Readable scope

/-- The trimmed contents of all texts and sections in a forest, in document order. -/
def contents : Forest → String
  | .empty => ""
  | .element _ inside behind => inside.contents ++ behind.contents
  | .text content behind => trim content ++ behind.contents
  | .cdata content behind => trim content ++ behind.contents

end Forest

namespace Document

open Text Markup Document.Tree Event

theorem opensMarkup_cons (more : List Char) : OpensMarkup ('<' :: more) :=
  forall_head? rfl

theorem opensMarkup_startTag (tag : Tag) (more : List Char) :
    OpensMarkup ((Event.startTag tag).written.toList ++ more) := by
  rw [toList_startTag]
  exact opensMarkup_cons _

theorem opensMarkup_endTag (name : String) (more : List Char) :
    OpensMarkup ((Event.endTag name).written.toList ++ more) := by
  rw [toList_endTag]
  exact opensMarkup_cons _

theorem opensMarkup_cdata (content : String) (more : List Char) :
    OpensMarkup ((Event.cdata content).written.toList ++ more) := by
  rw [toList_cdata]
  exact opensMarkup_cons _

/-- What a fragment writes for a text goes on with the text in front. -/
theorem toList_text_append (content : String) (behind : Forest) (front rest : List Char) :
    front.flatMap textEscape ++ ((writtenAll (Forest.text content behind).events).toList ++ rest) =
      (front ++ trimmed content.toList).flatMap textEscape ++ ((writtenAll behind.events).toList ++ rest) := by
  rw [Forest.events, writtenAll, Event.written, String.toList_append, String.toList_ofList,
    List.flatMap_append]
  simp only [List.append_assoc]

theorem toList_cdata_append (content : String) (behind : Forest) (rest : List Char) :
    (writtenAll (Forest.cdata content behind).events).toList ++ rest =
      (Event.cdata content).written.toList ++ ((writtenAll behind.events).toList ++ rest) := by
  rw [Forest.events, writtenAll, String.toList_append, List.append_assoc]

theorem toList_element_append (tag : Tag) (inside behind : Forest) (rest : List Char) :
    (writtenAll (Forest.element tag inside behind).events).toList ++ rest =
      (Event.startTag tag).written.toList ++ ((writtenAll inside.events).toList ++
        ((Event.endTag tag.name).written.toList ++ ((writtenAll behind.events).toList ++ rest))) := by
  simp only [Forest.events, writtenAll, writtenAll_append, String.toList_append, List.append_assoc]

/-- The text in front, and then what a fragment writes for a forest, are read as trees that say what the
text says and then what the forest holds. -/
theorem readOn?_forest : ∀ (forest : Forest) (front : List Char) {top : List Tree} {frame : Frame}
    {around : List Frame} {rest : List Char}, forest.Readable frame.scope → OpensMarkup rest → ∃ trees,
      readOn? ⟨top, frame :: around, true⟩
          (front.flatMap textEscape ++ ((writtenAll forest.events).toList ++ rest)) =
        readOn? ⟨top, frame.push trees :: around, true⟩ rest ∧
      forestTexts trees = String.ofList front ++ forest.contents
  | .empty, front, _, frame, _, rest, _, hr => by
    obtain ⟨trees, read, said⟩ := readOn?_text hr frame front
    exact ⟨trees, read, said.trans String.append_empty.symm⟩
  | .text content behind, front, top, frame, around, rest, h, hr => by
    -- the text is not read yet: it joins the one in front, and goes on with what is behind
    obtain ⟨trees, read, said⟩ := readOn?_forest behind (front ++ trimmed content.toList) h hr
    refine ⟨trees, ?_, ?_⟩
    · rw [toList_text_append]
      exact read
    · rw [said, String.ofList_append, String.append_assoc]
      rfl
  | .cdata content behind, front, top, frame, around, rest, ⟨without, h⟩, hr => by
    -- a bracket ends the text in front
    obtain ⟨before, read, said⟩ := readOn?_text
      (opensMarkup_cdata content ((writtenAll behind.events).toList ++ rest)) frame front
    obtain ⟨after, readBehind, saidBehind⟩ := @readOn?_forest behind [] top
      ((frame.push before).push [.text (trim content)]) around rest h hr
    refine ⟨before ++ .text (trim content) :: after, ?_, ?_⟩
    · rw [List.flatMap_nil, List.nil_append] at readBehind
      rw [toList_cdata_append, read, readOn?_cdata without, readBehind, Frame.push_cons, Frame.push_push]
    · rw [forestTexts_append, said, forestTexts, saidBehind, texts, Forest.contents, String.ofList_nil,
        String.empty_append]
  | .element tag inside behind, front, top, frame, around, rest, ⟨⟨inner, opens, hi⟩, h⟩, hr => by
    -- brackets end the text in front and the last text inside
    obtain ⟨before, read, said⟩ := readOn?_text (opensMarkup_startTag tag _) frame front
    obtain ⟨trees, readInside, saidInside⟩ := @readOn?_forest inside [] top inner
      (frame.push before :: around) _ hi
      (opensMarkup_endTag tag.name ((writtenAll behind.events).toList ++ rest))
    obtain ⟨after, readBehind, saidBehind⟩ := @readOn?_forest behind [] top
      ((frame.push before).push [.element inner.name inner.attributes inner.declared trees]) around rest
      h hr
    refine ⟨before ++ .element inner.name inner.attributes inner.declared trees :: after, ?_, ?_⟩
    · rw [List.flatMap_nil, List.nil_append] at readInside readBehind
      rw [toList_element_append, read,
        readOn?_startTag ⟨top, frame.push before :: around, true⟩ opens rfl, readInside,
        readOn?_endTag opens, add_inside, readBehind, Frame.push_cons, Frame.push_push]
    · rw [forestTexts_append, said, forestTexts, saidBehind, texts, saidInside, Forest.contents,
        String.ofList_nil, String.empty_append, String.empty_append]

/-! ## Documents -/

/-- A text that begins with a start tag has no declaration in front. -/
theorem behindDeclaration?_startTag (h : Worded tag) (rest : List Char) :
    behindDeclaration? ((Event.startTag tag).written.toList ++ rest) = none := by
  obtain ⟨first, more, hc⟩ := List.exists_cons_of_ne_nil h.name.ne_nil
  have other : first ≠ '?' := by
    rintro rfl
    apply h.name.not_mem (by decide : '?' ∈ tagSigns)
    rw [hc]
    exact List.mem_cons_self
  have undeclared (cs : List Char) : behind? "<?xml".toList ('<' :: first :: cs) = none := by
    rw [behind?, if_neg]
    rw [List.isPrefixOf_iff_prefix]
    intro inside
    exact other ((List.cons_prefix_cons.1 (List.cons_prefix_cons.1 inside).2).1.symm)
  rw [toList_startTag, tagChars, hc]
  simp only [List.cons_append, behindDeclaration?, undeclared]
  rfl

theorem ofText?_of_undeclared {text : String} (h : behindDeclaration? text.toList = none) :
    ofText? text = (readOn? ⟨[], [], false⟩ text.toList).bind Nesting.document? := by
  rw [ofText?, h, readOn?, Option.bind_assoc]
  rfl

variable {e : Element}

theorem toList_fragment (e : Element) : e.fragment.text.toList = (Event.startTag e.tag).written.toList ++
    ((writtenAll e.inside.events).toList ++ ((Event.endTag e.tag.name).written.toList ++ [])) := by
  simp only [Element.fragment, Element.events, writtenAll, writtenAll_append, String.toList_append,
    List.append_nil, String.append_empty]

/-- From the fragment of an element that a document can understand, one tree is read: the element with
the name and the attributes of its start tag, and with texts in it that say what its events hold. -/
theorem ofText?_fragment {frame : Frame} (h : Opens .outside e.tag frame)
    (hi : e.inside.Readable frame.scope) : ∃ trees,
      ofText? e.fragment.text = some ⟨[.element frame.name frame.attributes frame.declared trees]⟩ ∧
        forestTexts trees = e.inside.contents := by
  have parted := toList_fragment e
  obtain ⟨trees, readInside, said⟩ := @readOn?_forest e.inside [] [] frame [] _ hi
    (opensMarkup_endTag e.tag.name [])
  refine ⟨trees, ?_, said.trans String.empty_append⟩
  have read : readOn? ⟨[], [], false⟩ e.fragment.text.toList =
      some ⟨[.element frame.name frame.attributes frame.declared trees], [], true⟩ := by
    rw [List.flatMap_nil, List.nil_append] at readInside
    rw [parted, readOn?_startTag ⟨[], [], false⟩ h rfl, readInside, readOn?_endTag h, readOn?_nil]
    rfl
  have undeclared : behindDeclaration? e.fragment.text.toList = none := by
    rw [parted]
    exact behindDeclaration?_startTag h.worded _
  rw [ofText?_of_undeclared undeclared, read]
  rfl

end Document

end SubtreeHarvest

/-
Tokens are read back. Every event whose names a document can spell is written as a token of its own:
a tag comes back with its name and its attributes in order, a section with its content, and a text
as the runs and references it is written in.
-/
import SubtreeHarvest.Extract.Matcher
import SubtreeHarvest.Proofs.Document.Escape

namespace SubtreeHarvest

namespace Document

open Text Markup

/-! ## Names -/

/-- The characters that mean something in a tag. -/
def tagSigns : List Char :=
  [' ', '\t', '\r', '\n', '=', '\x27', '\x22', '<', '>', '/', '!', '?']

theorem forall_of_isPlainName {cs : List Char} (h : isPlainName cs = true) :
    cs ≠ [] ∧ ∀ c ∈ cs, isNameChar c = true := by
  cases cs with
  | nil => cases h
  | cons c cs =>
    obtain ⟨start, more⟩ := Bool.and_eq_true_iff.1 h
    refine ⟨List.cons_ne_nil c cs, List.forall_mem_cons.2 ⟨?_, List.all_eq_true.1 more⟩⟩
    rw [isNameChar, start, Bool.true_or]

variable {cs : List Char} {name : QualifiedName}

/-- Some characters of names, perhaps with colons anywhere among them. -/
structure IsWord (cs : List Char) : Prop where
  ne_nil : cs ≠ []
  forall_mem : ∀ c ∈ cs, (c == ':' || isNameChar c) = true

instance : Decidable (IsWord cs) :=
  decidable_of_iff (cs ≠ [] ∧ cs.all (fun c => c == ':' || isNameChar c) = true)
    ⟨fun ⟨ne_nil, all⟩ => ⟨ne_nil, List.all_eq_true.1 all⟩,
      fun h => ⟨h.ne_nil, List.all_eq_true.2 h.forall_mem⟩⟩

/-- A qualified name is spelled in characters of names, and perhaps a colon. -/
theorem isWord_of_ofChars? (h : QualifiedName.ofChars? cs = some name) : IsWord cs := by
  have loose {cs : List Char} (h : isPlainName cs = true) :
      ∀ c ∈ cs, (c == ':' || isNameChar c) = true := by
    intro c hc
    rw [(forall_of_isPlainName h).2 c hc, Bool.or_true]
  unfold QualifiedName.ofChars? at h
  split at h
  · split at h
    · exact ⟨(forall_of_isPlainName ‹_›).1, loose ‹_›⟩
    · cases h
  · rename_i before behind parted
    split at h
    · rename_i plain
      obtain ⟨front, back⟩ := Bool.and_eq_true_iff.1 plain
      rw [cut_eq_some parted]
      refine ⟨by simp, ?_⟩
      simp only [List.forall_mem_append, List.forall_mem_singleton]
      exact ⟨⟨loose front, by decide⟩, loose back⟩
    · cases h

/-- No character of a word means anything in a tag. -/
theorem IsWord.not_mem (h : IsWord cs) {c : Char} (hc : c ∈ tagSigns) : c ∉ cs := by
  have apart : tagSigns.all (fun c => !(c == ':' || isNameChar c)) = true := by decide
  have other := List.all_eq_true.1 apart c hc
  intro hm
  rw [h.forall_mem c hm] at other
  cases other

theorem IsWord.isSpace_eq_false (h : IsWord cs) : ∀ c ∈ cs, isSpace c = false := by
  intro c hc
  rw [Bool.eq_false_iff]
  intro space
  refine h.not_mem ?_ hc
  simp only [isSpace, Bool.or_eq_true, beq_iff_eq] at space
  rcases space with ((rfl | rfl) | rfl) | rfl <;> decide

theorem IsWord.isQuote_eq_false (h : IsWord cs) : ∀ c ∈ cs, isQuote c = false := by
  intro c hc
  rw [Bool.eq_false_iff]
  intro quote
  refine h.not_mem ?_ hc
  rcases eq_of_isQuote quote with rfl | rfl <;> decide

theorem IsWord.isKeyChar_eq_true (h : IsWord cs) : ∀ c ∈ cs, isKeyChar c = true := by
  intro c hc
  rw [isKeyChar, h.isSpace_eq_false c hc, Bool.not_false, Bool.and_true, bne_iff_ne]
  rintro rfl
  exact h.not_mem (by decide) hc

end Document

/-! ## Attributes -/

/-- The name of an attribute as a document understands it, with its value. -/
def Attribute.spelled? (a : Attribute) : Option (Document.QualifiedName × String) :=
  (Document.QualifiedName.ofChars? a.name.toList).map (·, a.value)

namespace Document

open Text Markup

theorem Attribute.toList_written (a : Attribute) : a.written.toList =
    ' ' :: (a.name.toList ++ '=' :: '\x27' :: (valueChars a.value ++ ['\x27'])) := by
  have space : " ".toList = [' '] := rfl
  have opening : "='".toList = ['=', '\x27'] := rfl
  have closing : "'".toList = ['\x27'] := rfl
  rw [Attribute.written, String.toList_append, String.toList_append, String.toList_append,
    String.toList_append, space, opening, closing, String.toList_ofList, ← valueChars]
  simp only [List.append_assoc, List.cons_append, List.nil_append]

/-- The characters of attributes, one behind the other. -/
def attributesChars (attributes : List Attribute) : List Char :=
  attributes.flatMap fun a => a.written.toList

/-- The fields that attributes are written as. -/
def fieldsChars (attributes : List Attribute) : List (List Char × List Char) :=
  attributes.map fun a => (a.name.toList, valueChars a.value)

theorem attributesChars_cons (a : Attribute) (attributes : List Attribute) :
    attributesChars (a :: attributes) = ' ' :: (a.name.toList ++ '=' :: '\x27' ::
      (valueChars a.value ++ '\x27' :: attributesChars attributes)) := by
  rw [attributesChars, List.flatMap_cons, Attribute.toList_written]
  simp [attributesChars]

/-- Attributes begin with space, if there are any. -/
theorem head?_attributesChars (attributes : List Attribute) :
    ∀ c ∈ (attributesChars attributes).head?, c = ' ' := by
  cases attributes with
  | nil => exact fun c hc => nomatch hc
  | cons a attributes =>
    rw [attributesChars_cons]
    exact forall_head? rfl

theorem getLast?_attributesChars (attributes : List Attribute) :
    ∀ c ∈ (attributesChars attributes).getLast?, c = '\x27' := by
  rcases List.eq_nil_or_concat attributes with rfl | ⟨front, a, rfl⟩
  · exact fun c hc => nomatch hc
  · have last : a.written.toList.getLast? = some '\x27' := by
      rw [Attribute.toList_written]
      simp [List.getLast?_cons]
    rw [attributesChars, List.concat_eq_append, List.flatMap_append, List.flatMap_singleton,
      List.getLast?_append, last, Option.some_or]
    rintro c ⟨⟩
    rfl

theorem quotedField?_written (value : String) (rest : List Char) :
    quotedField? ('\x27' :: (valueChars value ++ '\x27' :: rest)) = some (valueChars value, rest) := by
  have found : cut ['\x27'] (valueChars value ++ ['\x27'] ++ rest) = some (valueChars value, rest) := by
    apply cut_of_first (List.cons_ne_nil _ _)
    rw [List.dropLast_singleton, List.append_nil]
    exact fun inside => apostrophe_not_mem_value value (inside.subset List.mem_cons_self)
  have quote : isQuote '\x27' = true := by decide
  rw [quotedField?, if_pos quote, ← found, List.append_assoc]
  rfl

theorem field?_written {a : Attribute} (h : IsWord a.name.toList) (rest : List Char) :
    field? (a.name.toList ++ '=' :: '\x27' :: (valueChars a.value ++ '\x27' :: rest)) =
      some ((a.name.toList, valueChars a.value), rest) := by
  have stop (more : List Char) : ∀ c ∈ ('=' :: more).head?, isKeyChar c = false :=
    forall_head? (by decide)
  obtain ⟨key, behind⟩ := span_of_stop h.isKeyChar_eq_true
    (stop ('\x27' :: (valueChars a.value ++ '\x27' :: rest)))
  have equals : isSpace '=' = false := by decide
  have quote : isSpace '\x27' = false := by decide
  simp only [field?, key, behind, List.dropWhile_cons, equals, quote, Bool.false_eq_true, if_false,
    quotedField?_written, Option.map_some]

/-- One field is found, then the others. -/
theorem fields?_step {space first : Char} {more behind : List Char} {field : List Char × List Char}
    (hs : isSpace space = true) (hb : isSpace first = false)
    (hf : field? (first :: more) = some (field, behind)) :
    fields? (space :: first :: more) = (field :: ·) <$> fields? behind := by
  have begins : (space :: first :: more).dropWhile isSpace = first :: more := by
    rw [List.dropWhile_cons, if_pos hs, List.dropWhile_cons, hb, if_neg Bool.false_ne_true]
  rw [fields?]
  simp only [List.isEmpty_cons, Bool.false_eq_true, if_false, List.head?_cons, Option.any_some, hs,
    Bool.not_true]
  split
  · rename_i he
    cases begins.symm.trans he
  · rename_i he
    cases begins.symm.trans he
    split
    · rename_i hf'
      cases hf.symm.trans hf'
      rfl
    · rename_i hf'
      cases hf.symm.trans hf'

/-- Attributes whose names are words are found again, each with what is written for its value. -/
theorem fields?_written : ∀ {attributes : List Attribute}, (∀ a ∈ attributes, IsWord a.name.toList) →
    fields? (attributesChars attributes) = some (fieldsChars attributes)
  | [], _ => by
    rw [attributesChars, List.flatMap_nil, fields?]
    rfl
  | a :: attributes, h => by
    obtain ⟨word, more⟩ := List.forall_mem_cons.1 h
    obtain ⟨first, cs, hc⟩ := List.exists_cons_of_ne_nil word.ne_nil
    have black : isSpace first = false := word.isSpace_eq_false first (hc ▸ List.mem_cons_self)
    have one := field?_written word (attributesChars attributes)
    rw [hc, List.cons_append] at one
    rw [attributesChars_cons, hc, List.cons_append, fields?_step (by decide) black one, fields?_written more,
      ← hc]
    rfl

/-- The fields of attributes say what the attributes are spelled as. -/
theorem mapM_fieldsChars (attributes : List Attribute) :
    (fieldsChars attributes).mapM attribute? = attributes.mapM Attribute.spelled? := by
  have one (a : Attribute) : attribute? (a.name.toList, valueChars a.value) = a.spelled? := by
    rw [attribute?, value?_written, Attribute.spelled?]
    cases QualifiedName.ofChars? a.name.toList <;> rfl
  rw [fieldsChars, List.mapM_map]
  simp only [Function.comp_def, one]

/-- A word holds neither the bracket that closes a tag nor a quote. -/
theorem IsWord.uncut (h : IsWord cs) : ∀ c ∈ cs, c ≠ '>' ∧ isQuote c = false := by
  intro c hc
  refine ⟨?_, h.isQuote_eq_false c hc⟩
  rintro rfl
  exact h.not_mem (by decide) hc

/-- The bracket that closes a tag is looked for behind all the attributes. -/
theorem cutUnquoted_attributes (rest : List Char) : ∀ {attributes : List Attribute},
    (∀ a ∈ attributes, IsWord a.name.toList) →
      cutUnquoted isQuote '>' none (attributesChars attributes ++ rest) =
        (cutUnquoted isQuote '>' none rest).map fun (before, behind) =>
          (attributesChars attributes ++ before, behind)
  | [], _ => by simp [attributesChars]
  | a :: attributes, h => by
    obtain ⟨word, more⟩ := List.forall_mem_cons.1 h
    have front : ∀ c ∈ ' ' :: (a.name.toList ++ ['=']), c ≠ '>' ∧ isQuote c = false := by
      simp only [List.forall_mem_cons, List.forall_mem_append]
      exact ⟨by decide, word.uncut, by decide, fun _ hm => nomatch hm⟩
    have parted : attributesChars (a :: attributes) ++ rest = ' ' :: (a.name.toList ++ ['=']) ++
        '\x27' :: (valueChars a.value ++ '\x27' :: (attributesChars attributes ++ rest)) := by
      rw [attributesChars_cons]
      simp
    rw [parted, cutUnquoted_plain _ front,
      cutUnquoted_quoted _ (by decide) (by decide) (apostrophe_not_mem_value a.value),
      cutUnquoted_attributes rest more, attributesChars_cons, Option.map_map, Option.map_map]
    simp [Function.comp_def]

/-! ## Tags -/

section Tags

variable {tag : Tag} {fields : List (QualifiedName × String)}

/-- The name and the attributes of a tag as a document understands them. -/
structure Spells (tag : Tag) (name : QualifiedName) (fields : List (QualifiedName × String)) : Prop where
  head : QualifiedName.ofChars? tag.name.toList = some name
  attributes : tag.attributes.mapM Attribute.spelled? = some fields

/-- The name and the attributes of a tag, if a document can understand each of them. -/
def spelling? (tag : Tag) : Option (QualifiedName × List (QualifiedName × String)) := do
  let name ← QualifiedName.ofChars? tag.name.toList
  let fields ← tag.attributes.mapM Attribute.spelled?
  return (name, fields)

/-- All names in the tag are words. -/
structure Worded (tag : Tag) : Prop where
  name : IsWord tag.name.toList
  keys : ∀ a ∈ tag.attributes, IsWord a.name.toList

instance (tag : Tag) : Decidable (Worded tag) :=
  decidable_of_iff (IsWord tag.name.toList ∧ ∀ a ∈ tag.attributes, IsWord a.name.toList)
    ⟨fun ⟨name, keys⟩ => ⟨name, keys⟩, fun h => ⟨h.name, h.keys⟩⟩

theorem spelling?_eq_some_iff : spelling? tag = some (name, fields) ↔ Spells tag name fields := by
  simp only [spelling?, Option.bind_eq_bind, Option.bind_eq_some_iff]
  constructor
  · rintro ⟨name, head, fields, attributes, same⟩
    cases same
    exact ⟨head, attributes⟩
  · intro spells
    exact ⟨name, spells.head, fields, spells.attributes, rfl⟩

theorem forall_mem_of_mapM_spelled? : ∀ {attributes : List Attribute} {fields : List (QualifiedName × String)},
    attributes.mapM Attribute.spelled? = some fields → ∀ a ∈ attributes, IsWord a.name.toList
  | [], _, _ => List.forall_mem_nil _
  | a :: attributes, fields, h => by
    rw [List.mapM_cons] at h
    obtain ⟨field, spelled, h⟩ := Option.bind_eq_some_iff.1 h
    obtain ⟨others, more, -⟩ := Option.bind_eq_some_iff.1 h
    obtain ⟨name, hn, -⟩ := Option.map_eq_some_iff.1 spelled
    exact List.forall_mem_cons.2 ⟨isWord_of_ofChars? hn, forall_mem_of_mapM_spelled? more⟩

theorem Spells.worded (h : Spells tag name fields) : Worded tag :=
  ⟨isWord_of_ofChars? h.head, forall_mem_of_mapM_spelled? h.attributes⟩

/-- What stands between the brackets of a start tag. -/
def tagChars (tag : Tag) : List Char :=
  tag.name.toList ++ attributesChars tag.attributes

theorem toList_startTag (tag : Tag) :
    (Event.startTag tag).written.toList = '<' :: (tagChars tag ++ ['>']) := by
  have opening : "<".toList = ['<'] := rfl
  have closing : ">".toList = ['>'] := rfl
  have attributes : (String.join (tag.attributes.map Attribute.written)).toList =
      attributesChars tag.attributes := by
    rw [String.toList_join, List.flatMap_map, attributesChars]
  rw [Event.written, String.toList_append, String.toList_append, String.toList_append, opening, closing,
    attributes, tagChars]
  rfl

/-- The name in a tag ends where the attributes begin. -/
theorem Worded.span_tagChars (h : Worded tag) :
    (tagChars tag).takeWhile (!isSpace ·) = tag.name.toList ∧
      (tagChars tag).dropWhile (!isSpace ·) = attributesChars tag.attributes := by
  apply span_of_stop
  · intro c hc
    rw [h.name.isSpace_eq_false c hc]
    rfl
  · intro c hc
    rw [head?_attributesChars tag.attributes c hc]
    rfl

/-- A tag does not end in a slash: its last character is one of the name, or closes a value. -/
theorem Worded.getLast?_tagChars (h : Worded tag) : (tagChars tag).getLast? ≠ some '/' := by
  intro last
  rw [tagChars, List.getLast?_append] at last
  cases ha : (attributesChars tag.attributes).getLast? with
  | none =>
    rw [ha, Option.none_or] at last
    exact h.name.not_mem (by decide) (List.mem_of_getLast? last)
  | some c =>
    rw [ha, Option.some_or, getLast?_attributesChars tag.attributes c ha] at last
    cases last

/-- A start tag is read back from what stands between its brackets, if a document understands it. -/
theorem Worded.openTag? (h : Worded tag) : openTag? (tagChars tag) =
    (spelling? tag).map fun (name, fields) => .openTag name fields false := by
  obtain ⟨front, behind⟩ := h.span_tagChars
  have unclosed : ((tagChars tag).getLast? == some '/') = false := by
    rw [beq_eq_false_iff_ne]
    exact h.getLast?_tagChars
  simp only [Document.openTag?, unclosed, Bool.false_eq_true, if_false, front, behind,
    fields?_written h.keys, mapM_fieldsChars, Option.bind_eq_bind, Option.bind_some, spelling?]
  cases QualifiedName.ofChars? tag.name.toList <;> cases tag.attributes.mapM Attribute.spelled? <;> rfl

/-- An end tag is read back from what stands between slash and bracket. -/
theorem closeTag?_name (h : QualifiedName.ofChars? cs = some name) :
    closeTag? cs = some (.closeTag name) := by
  have black : ∀ c ∈ cs, (!isSpace c) = true := by
    intro c hc
    rw [(isWord_of_ofChars? h).isSpace_eq_false c hc]
    rfl
  obtain ⟨front, behind⟩ := @span_of_stop _ _ cs black [] (fun _ h => nomatch h)
  rw [List.append_nil] at front behind
  simp only [closeTag?, front, behind, h, Option.bind_eq_bind, Option.bind_some, List.all_nil, if_true]

end Tags

/-! ## Markup -/

section Markup

variable {tag : Tag} {fields : List (QualifiedName × String)}

/-- Behind a bracket, a character that introduces nothing else begins a start tag. -/
theorem markup?_of_ne {c : Char} {rest : List Char} (bang : c ≠ '!') (question : c ≠ '?')
    (slash : c ≠ '/') :
    markup? (c :: rest) = (cutUnquoted isQuote '>' none (c :: rest)).bind fun (content, behind) =>
      (openTag? content).map (·, behind) := by
  have comment : behind? "!--".toList (c :: rest) = none := behind?_of_ne bang _ _
  have cdata : behind? "![CDATA[".toList (c :: rest) = none := behind?_of_ne bang _ _
  have doctype : behind? "!DOCTYPE".toList (c :: rest) = none := behind?_of_ne bang _ _
  have instruction : behind? "?".toList (c :: rest) = none := behind?_of_ne question _ _
  have close : behind? "/".toList (c :: rest) = none := behind?_of_ne slash _ _
  simp only [markup?, comment, cdata, doctype, instruction, close]
  cases cutUnquoted isQuote '>' none (c :: rest) <;> rfl

/-- A start tag whose names are words is a token if a document understands it, and nothing else. -/
theorem Worded.token? (h : Worded tag) (rest : List Char) :
    token? '<' (tagChars tag ++ '>' :: rest) =
      (spelling? tag).map fun (name, fields) => (.openTag name fields false, rest) := by
  obtain ⟨first, more, hc⟩ := List.exists_cons_of_ne_nil h.name.ne_nil
  have other {c : Char} (hc' : c ∈ tagSigns) : first ≠ c := by
    rintro rfl
    apply h.name.not_mem hc'
    rw [hc]
    exact List.mem_cons_self
  have here : cutUnquoted isQuote '>' none ('>' :: rest) = some ([], rest) := by
    rw [cutUnquoted, if_pos (beq_self_eq_true _)]
  have closing : cutUnquoted isQuote '>' none (tagChars tag ++ '>' :: rest) = some (tagChars tag, rest) := by
    rw [tagChars, List.append_assoc, cutUnquoted_plain _ h.name.uncut, cutUnquoted_attributes _ h.keys, here]
    simp only [Option.map_some, List.append_nil]
  have begins : tagChars tag ++ '>' :: rest =
      first :: (more ++ (attributesChars tag.attributes ++ '>' :: rest)) := by
    rw [tagChars, hc]
    simp
  have markup : Document.token? '<' (tagChars tag ++ '>' :: rest) = markup? (tagChars tag ++ '>' :: rest) := rfl
  rw [begins] at closing
  rw [markup, begins, markup?_of_ne (other (by decide)) (other (by decide)) (other (by decide)), closing]
  simp only [Option.bind_some, h.openTag?, Option.map_map]
  rfl

/-- A start tag that a document understands is a token. -/
theorem token?_startTag (h : Spells tag name fields) (rest : List Char) :
    token? '<' (tagChars tag ++ '>' :: rest) = some (.openTag name fields false, rest) := by
  rw [h.worded.token?, spelling?_eq_some_iff.2 h, Option.map_some]

/-- An end tag is a token. -/
theorem token?_endTag (h : QualifiedName.ofChars? cs = some name) (rest : List Char) :
    token? '<' ('/' :: (cs ++ '>' :: rest)) = some (.closeTag name, rest) := by
  have found : cut ['>'] (cs ++ ['>'] ++ rest) = some (cs, rest) := by
    apply cut_of_first (List.cons_ne_nil _ _)
    rw [List.dropLast_singleton, List.append_nil]
    exact fun inside => (isWord_of_ofChars? h).not_mem (by decide) (inside.subset List.mem_cons_self)
  rw [List.append_assoc, List.singleton_append] at found
  have markup : token? '<' ('/' :: (cs ++ '>' :: rest)) = upTo? ['>'] closeTag? (cs ++ '>' :: rest) := rfl
  rw [markup, upTo?, found]
  simp only [closeTag?_name h, Option.map_some]

/-- A character data section is a token. -/
theorem token?_cdata {content : List Char} (h : ¬ "]]>".toList <:+: content) (rest : List Char) :
    token? '<' ("![CDATA[".toList ++ content ++ "]]>".toList ++ rest) =
      some (.cdata (String.ofList content), rest) := by
  have found : cut "]]>".toList (content ++ "]]>".toList ++ rest) = some (content, rest) := by
    refine cut_of_first (by decide) fun inside => h ?_
    have ends : "]]>".toList = [']', ']'] ++ ['>'] := rfl
    rw [ends] at inside ⊢
    exact infix_of_append_front (by decide) inside
  have markup : token? '<' ("![CDATA[".toList ++ content ++ "]]>".toList ++ rest) =
      upTo? "]]>".toList (fun content => some (.cdata (String.ofList content)))
        (content ++ "]]>".toList ++ rest) := rfl
  rw [markup, upTo?, found]
  rfl

end Markup

/-! ## Texts -/

/-- Nothing that a run of characters in front could go on with. -/
def OpensMarkup (rest : List Char) : Prop :=
  ∀ c ∈ rest.head?, c = '<'

/-- A character that a text writes as it is. -/
def isPlainChar (c : Char) : Bool :=
  c != '<' && c != '>' && c != '&'

theorem ne_of_isPlainChar {c : Char} (h : isPlainChar c = true) : c ≠ '<' ∧ c ≠ '>' ∧ c ≠ '&' := by
  simpa [isPlainChar, and_assoc] using h

theorem textEscape_plain {c : Char} (h : isPlainChar c = true) : textEscape c = [c] := by
  obtain ⟨less, greater, ampersand⟩ := ne_of_isPlainChar h
  simp only [textEscape, beq_iff_eq, less, greater, ampersand, if_false]

/-- What is not written as it is, is written as a reference. -/
theorem textEscape_reference {c : Char} (h : isPlainChar c = false) : ∃ body,
    textEscape c = '&' :: (body ++ [';']) ∧ body.all isReferenceChar = true ∧ referenced? body = some c := by
  simp only [isPlainChar, Bool.and_eq_false_iff, bne_eq_false_iff_eq] at h
  rcases h with (rfl | rfl) | rfl
  · exact ⟨"lt".toList, rfl, by decide, rfl⟩
  · exact ⟨"gt".toList, rfl, by decide, rfl⟩
  · exact ⟨"amp".toList, rfl, by decide, rfl⟩

/-- A reference is a token. -/
theorem token?_reference {c : Char} {body : List Char} (hb : body.all isReferenceChar = true)
    (hr : referenced? body = some c) (rest : List Char) :
    token? '&' (body ++ [';'] ++ rest) = some (.reference c, rest) := by
  have reference : token? '&' (body ++ [';'] ++ rest) =
      upTo? [';'] (fun body => (referenced? body).map .reference) (body ++ [';'] ++ rest) := rfl
  rw [reference, upTo?, cut_body hb]
  simp only [hr, Option.map_some]

/-- A run of plain characters is a token if what follows ends it. -/
theorem token?_run {c : Char} {run rest : List Char} (hc : isPlainChar c = true)
    (hp : ∀ d ∈ run, isPlainChar d = true) (hr : ∀ d ∈ rest.head?, isRunChar d = false) :
    token? c (run ++ rest) = some (.characters (String.ofList (c :: run)), rest) := by
  obtain ⟨less, greater, ampersand⟩ := ne_of_isPlainChar hc
  have inside : ∀ d ∈ run, isRunChar d = true := by
    intro d hd
    obtain ⟨less, -, ampersand⟩ := ne_of_isPlainChar (hp d hd)
    simp [isRunChar, less, ampersand]
  obtain ⟨taken, left⟩ := span_of_stop inside hr
  -- without a closing bracket the run holds no end mark of a section
  have unclosed : '>' ∉ c :: run := by
    rw [List.mem_cons, not_or]
    exact ⟨greater.symm, fun hm => (ne_of_isPlainChar (hp _ hm)).2.1 rfl⟩
  have markless : cut "]]>".toList (c :: run) = none := cut_of_not_mem (by decide) unclosed
  simp only [token?, beq_iff_eq, less, ampersand, if_false, taken, left, run?, markless,
    Option.isSome_none, Bool.false_eq_true, Option.map_some]

end Document

end SubtreeHarvest

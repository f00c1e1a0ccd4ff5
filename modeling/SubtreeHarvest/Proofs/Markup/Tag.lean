/-
Tags are read back. A tag whose names are plain is written so that its closing bracket is the first
one outside quotes, and what stands before that is read as the tag: its name, and its attributes
with their values, in order.
-/
import SubtreeHarvest.Extract.Matcher
import SubtreeHarvest.Markup.Attributes
import SubtreeHarvest.Markup.Construct
import SubtreeHarvest.Proofs.Markup.Escape
import SubtreeHarvest.Proofs.Text.Utf8

namespace SubtreeHarvest

open Text Markup Utf8

/-! ## Names -/

namespace Markup

/-- An ASCII letter or digit, or one of four signs. -/
def isAsciiNameChar (c : Char) : Bool :=
  c.isAlphanum || c == '_' || c == '-' || c == '.' || c == ':'

/-- A name that is plain: not empty, and nothing in it needs care. -/
def isName (name : String) : Bool :=
  name != "" && name.toList.all isAsciiNameChar

/-- The bytes that mean something in a tag. -/
def tagMarks : List UInt8 :=
  [0x20, 0x09, 0x0D, 0x0A, Byte.equals, Byte.quote, Byte.apostrophe, Byte.greater, Byte.slash,
    Byte.bang, Byte.question]

variable {name : String} {b : UInt8}

/-- No byte of a plain name means anything in a tag. -/
theorem not_mem_name (h : isName name = true) (hb : b ∈ tagMarks) : b ∉ encode name := by
  have apart : tagMarks.all (fun b => b.toNat < 0x80 ∧ isAsciiNameChar (charOf b) = false) = true := by
    decide
  obtain ⟨small, other⟩ := of_decide_eq_true (List.all_eq_true.1 apart b hb)
  intro hm
  have all := List.all_eq_true.1 (Bool.and_eq_true_iff.1 h).2 _ (charOf_mem small hm)
  rw [other] at all
  cases all

theorem encode_name (h : isName name = true) : ∃ first more, encode name = first :: more := by
  apply List.exists_cons_of_ne_nil
  apply bytes_ne_nil
  intro empty
  have filled := (Bool.and_eq_true_iff.1 h).1
  rw [String.toList_eq_nil_iff.1 empty] at filled
  cases filled

theorem isSpace_name (h : isName name = true) : ∀ b ∈ encode name, Byte.isSpace b = false := by
  intro b hb
  rw [Bool.eq_false_iff]
  intro space
  refine not_mem_name h ?_ hb
  simp only [Byte.isSpace, Bool.or_eq_true, beq_iff_eq] at space
  rcases space with ((rfl | rfl) | rfl) | rfl <;> decide

theorem isKeyByte_name (h : isName name = true) : ∀ b ∈ encode name, isKeyByte b = true := by
  intro b hb
  rw [isKeyByte, isSpace_name h b hb, Bool.not_false, Bool.and_true, bne_iff_ne]
  rintro rfl
  exact not_mem_name h (by decide) hb

theorem decodeName_encode (s : String) : decodeName (encode s) = .ok s := by
  rw [decodeName, encode_eq, decode_bytes]
  simp only [String.ofList_toList]

/-! ## Contents -/

/-- A content is read back from what stands for its characters. -/
theorem decodeContent_written {escape : Char → List Char} (h : ∀ c, Stands c (escape c))
    (cs : List Char) : decodeContent (bytes (cs.flatMap escape)) = .ok (String.ofList cs) := by
  rw [decodeContent, decode_bytes]
  simp only [unescape_flatMap h]

/-- A byte that no character is written with is not among the bytes of what is written. -/
theorem not_mem_escaped {escape : Char → List Char} (small : b.toNat < 0x80)
    (h : ∀ c, charOf b ∉ escape c) (cs : List Char) : b ∉ bytes (cs.flatMap escape) := by
  intro hm
  obtain ⟨c, -, hc⟩ := List.mem_flatMap.1 (charOf_mem small hm)
  exact h c hc

/-! ## Attributes -/

/-- The bytes between the quotes of a value. -/
def valueBytes (value : String) : List UInt8 :=
  bytes (value.toList.flatMap valueEscape)

theorem encode_attribute (a : Attribute) : encode a.written =
    0x20 :: (encode a.name ++ Byte.equals :: Byte.apostrophe ::
      (valueBytes a.value ++ [Byte.apostrophe])) := by
  have space : encode " " = [0x20] := by decide
  have opening : encode "='" = [Byte.equals, Byte.apostrophe] := by decide
  have closing : encode "'" = [Byte.apostrophe] := by decide
  rw [Attribute.written, encode_append, encode_append, encode_append, encode_append, space, opening,
    closing, encode_ofList (a.value.toList.flatMap valueEscape), ← valueBytes]
  simp only [List.append_assoc, List.cons_append, List.nil_append]

theorem getLast?_attribute (a : Attribute) : (encode a.written).getLast? = some Byte.apostrophe := by
  have regrouped : encode a.written = (0x20 :: (encode a.name ++ Byte.equals :: Byte.apostrophe ::
      valueBytes a.value)) ++ [Byte.apostrophe] := by
    rw [encode_attribute]
    simp only [List.append_assoc, List.cons_append]
  rw [regrouped, List.getLast?_concat]

/-- The bytes of attributes, one behind the other. -/
def attributesBytes (attributes : List Attribute) : List UInt8 :=
  attributes.flatMap fun a => encode a.written

theorem apostrophe_not_mem_value (value : String) : Byte.apostrophe ∉ valueBytes value :=
  not_mem_escaped (by decide) apostrophe_not_mem_valueEscape value.toList

theorem rawValue_written (size : Nat) (value : String) (rest : List UInt8) :
    rawValue size (Byte.apostrophe :: (valueBytes value ++ Byte.apostrophe :: rest)) =
      .ok (valueBytes value, rest) := by
  have inside : ∀ b ∈ valueBytes value, (b != Byte.apostrophe) = true := by
    intro b hb
    rw [bne_iff_ne]
    rintro rfl
    exact apostrophe_not_mem_value value hb
  have stop : ∀ b ∈ (Byte.apostrophe :: rest).head?, (b != Byte.apostrophe) = false :=
    forall_head? (by decide)
  obtain ⟨taken, left⟩ := span_of_stop inside stop
  have quote : Byte.isQuote Byte.apostrophe = true := by decide
  have space : Byte.isSpace Byte.apostrophe = false := by decide
  rw [rawValue, List.dropWhile_cons, space]
  simp only [Bool.false_eq_true, if_false, quote, Bool.not_true, left, taken]

variable {first : UInt8} {more : List UInt8} {seen : List (List UInt8 × Nat)}

theorem rawAttribute_written (size i : Nat) {a : Attribute} (rest : List UInt8)
    (h : isName a.name = true) (hn : encode a.name = first :: more)
    (new : ∀ k ∈ seen, k.1 ≠ encode a.name) :
    rawAttribute size seen i first (more ++ Byte.equals :: Byte.apostrophe ::
        (valueBytes a.value ++ Byte.apostrophe :: rest)) =
      .ok (⟨encode a.name, i, valueBytes a.value⟩, rest) := by
  have inside : ∀ b ∈ more, isKeyByte b = true := by
    intro b hb
    apply isKeyByte_name h
    rw [hn]
    exact List.mem_cons_of_mem first hb
  have stop (rest : List UInt8) : ∀ b ∈ (Byte.equals :: rest).head?, isKeyByte b = false :=
    forall_head? (by decide)
  have space : Byte.isSpace Byte.equals = false := by decide
  obtain ⟨key, behind⟩ := span_of_stop inside
    (stop (Byte.apostrophe :: (valueBytes a.value ++ Byte.apostrophe :: rest)))
  have fresh : seen.find? (·.1 == encode a.name) = none := by
    rw [List.find?_eq_none]
    intro k hk
    simpa using new k hk
  rw [rawAttribute, behind, List.dropWhile_cons, space]
  simp only [Bool.false_eq_true, if_false, bne_self_eq_false, key, ← hn, fresh, rawValue_written]

/-- One attribute is read, then the others. -/
theorem attributesFrom_step {size : Nat} {bytes rest : List UInt8} {raw : RawAttribute}
    (hb : bytes.dropWhile Byte.isSpace = first :: more)
    (hr : rawAttribute size seen (size - (more.length + 1)) first more = .ok (raw, rest)) :
    attributesFrom size seen bytes = do
      let name ← decodeName raw.key
      let value ← decodeContent raw.value
      let others ← attributesFrom size (seen ++ [(raw.key, raw.start)]) rest
      return ⟨name, value⟩ :: others := by
  rw [attributesFrom]
  split
  · rename_i he
    cases hb.symm.trans he
  · rename_i he
    cases hb.symm.trans he
    split
    · rename_i he
      cases hr.symm.trans he
    · rename_i he
      cases hr.symm.trans he
      rfl

/-- Attributes with plain names, no two of them alike, are read back in order. -/
theorem attributesFrom_written (size : Nat) : ∀ {attributes : List Attribute}
    {seen : List (List UInt8 × Nat)}, (∀ a ∈ attributes, isName a.name = true) →
      (attributes.map Attribute.name).Nodup → (∀ k ∈ seen, ∀ a ∈ attributes, k.1 ≠ encode a.name) →
        attributesFrom size seen (attributesBytes attributes) = .ok attributes
  | [], _, _, _, _ => by
    rw [attributesFrom]
    rfl
  | a :: attributes, seen, names, distinct, new => by
    obtain ⟨name, names⟩ := List.forall_mem_cons.1 names
    obtain ⟨alone, distinct⟩ := List.nodup_cons.1 distinct
    obtain ⟨first, more, hn⟩ := encode_name name
    have begins : (attributesBytes (a :: attributes)).dropWhile Byte.isSpace =
        first :: (more ++ Byte.equals :: Byte.apostrophe ::
          (valueBytes a.value ++ Byte.apostrophe :: attributesBytes attributes)) := by
      have space : Byte.isSpace 0x20 = true := by decide
      have black : Byte.isSpace first = false := isSpace_name name first (hn ▸ List.mem_cons_self)
      rw [attributesBytes, List.flatMap_cons, encode_attribute, hn, List.cons_append,
        List.dropWhile_cons, if_pos space, List.append_assoc, List.cons_append, List.dropWhile_cons, black]
      simp [attributesBytes]
    -- the key just read does not come again: equal bytes would be equal names
    have fresh (i : Nat) : ∀ k ∈ seen ++ [(encode a.name, i)], ∀ b ∈ attributes,
        k.1 ≠ encode b.name := by
      intro k hk b hb
      rcases List.mem_append.1 hk with hk | hk
      · exact new k hk b (List.mem_cons_of_mem a hb)
      · rw [List.mem_singleton.1 hk]
        intro same
        exact alone (encode_injective same ▸ List.mem_map_of_mem hb)
    rw [attributesFrom_step begins
      (rawAttribute_written _ _ _ name hn fun k hk => new k hk a List.mem_cons_self)]
    simp only [decodeName_encode, valueBytes, decodeContent_written stands_valueEscape,
      String.ofList_toList, attributesFrom_written size names distinct (fresh _)]
    rfl

/-! ## Closing brackets -/

/-- The closing bracket of a tag is looked for behind the content, and outside quotes there. -/
def Closed (content : List UInt8) : Prop :=
  ∀ rest, cutTag (content ++ rest) =
    (cutTag rest).map fun (before, behind) => (content ++ before, behind)

theorem Closed.append {content more : List UInt8} (hc : Closed content) (hm : Closed more) :
    Closed (content ++ more) := by
  intro rest
  rw [List.append_assoc, hc, hm, Option.map_map]
  simp only [Function.comp_def, List.append_assoc]

theorem Closed.cutTag {content : List UInt8} (h : Closed content) (rest : List UInt8) :
    cutTag (content ++ Byte.greater :: rest) = some (content, rest) := by
  have here : Markup.cutTag (Byte.greater :: rest) = some ([], rest) := by
    rw [Markup.cutTag, cutUnquoted, if_pos (beq_self_eq_true _)]
  rw [h, here, Option.map_some]
  simp only [List.append_nil]

theorem closed_plain {content : List UInt8}
    (h : ∀ b ∈ content, b ≠ Byte.greater ∧ Byte.isQuote b = false) : Closed content :=
  fun rest => cutUnquoted_plain rest h

theorem closed_name (h : isName name = true) : Closed (encode name) := by
  apply closed_plain
  intro b hb
  constructor
  · rintro rfl
    exact not_mem_name h (by decide) hb
  rw [Bool.eq_false_iff]
  intro quote
  refine not_mem_name h ?_ hb
  simp only [Byte.isQuote, Bool.or_eq_true, beq_iff_eq] at quote
  rcases quote with rfl | rfl <;> decide

theorem closed_value (value : String) :
    Closed (Byte.apostrophe :: (valueBytes value ++ [Byte.apostrophe])) := by
  intro rest
  have quote : Byte.isQuote Byte.apostrophe = true := by decide
  have other : Byte.apostrophe ≠ Byte.greater := by decide
  have quoted := cutUnquoted_quoted rest quote other (apostrophe_not_mem_value value)
  simpa [cutTag] using quoted

theorem closed_attributes : ∀ {attributes : List Attribute},
    (∀ a ∈ attributes, isName a.name = true) → Closed (attributesBytes attributes)
  | [], _ => closed_plain fun b hb => nomatch hb
  | a :: attributes, names => by
    obtain ⟨name, names⟩ := List.forall_mem_cons.1 names
    have space : Closed [0x20] := closed_plain (List.forall_mem_singleton.2 (by decide))
    have equals : Closed [Byte.equals] := closed_plain (List.forall_mem_singleton.2 (by decide))
    have one := ((space.append (closed_name name)).append equals).append (closed_value a.value)
    have same : encode a.written = [0x20] ++ encode a.name ++ [Byte.equals] ++
        Byte.apostrophe :: (valueBytes a.value ++ [Byte.apostrophe]) := by
      rw [encode_attribute]; simp
    rw [attributesBytes, List.flatMap_cons, same]
    exact one.append (closed_attributes names)

end Markup

/-! ## Tags -/

namespace Tag

/-- Names are plain, and no two attributes have the same one. -/
structure Writable (tag : Tag) : Prop where
  name : isName tag.name = true
  keys : ∀ a ∈ tag.attributes, isName a.name = true
  distinct : (tag.attributes.map Attribute.name).Nodup

instance (tag : Tag) : Decidable tag.Writable :=
  decidable_of_iff (isName tag.name = true ∧ (∀ a ∈ tag.attributes, isName a.name = true) ∧
      (tag.attributes.map Attribute.name).Nodup)
    ⟨fun ⟨name, keys, distinct⟩ => ⟨name, keys, distinct⟩, fun h => ⟨h.name, h.keys, h.distinct⟩⟩

/-- What stands between the brackets of a start tag. -/
def content (tag : Tag) : List UInt8 :=
  encode tag.name ++ attributesBytes tag.attributes

theorem encode_written (tag : Tag) :
    encode (Event.startTag tag).written = Byte.less :: (tag.content ++ [Byte.greater]) := by
  have opening : encode "<" = [Byte.less] := by decide
  have closing : encode ">" = [Byte.greater] := by decide
  rw [Event.written, encode_append, encode_append, encode_append, opening, closing, encode_join,
    List.flatMap_map, ← attributesBytes, content]
  simp only [List.append_assoc, List.cons_append, List.nil_append]

variable {tag : Tag}

theorem Writable.closed (h : tag.Writable) : Closed tag.content :=
  (closed_name h.name).append (closed_attributes h.keys)

/-- The name in a tag ends where the attributes begin. -/
theorem Writable.span_content (h : tag.Writable) :
    tag.content.takeWhile (!Byte.isSpace ·) = encode tag.name ∧
      tag.content.dropWhile (!Byte.isSpace ·) = attributesBytes tag.attributes := by
  have black : ∀ b ∈ encode tag.name, (!Byte.isSpace b) = true := by
    intro b hb
    rw [isSpace_name h.name b hb]
    rfl
  refine span_of_stop black ?_
  cases tag.attributes with
  | nil => exact fun b hb => nomatch hb
  | cons a attributes =>
    rw [attributesBytes, List.flatMap_cons, encode_attribute]
    exact forall_head? (by decide)

/-- A tag is read back from what stands between its brackets. -/
theorem Writable.decodeTag (h : tag.Writable) : decodeTag tag.content = .ok tag := by
  obtain ⟨name, attributes⟩ := h.span_content
  rw [Markup.decodeTag, name, attributes, decodeName_encode]
  have none : ∀ k ∈ ([] : List (List UInt8 × Nat)), ∀ a ∈ tag.attributes, k.1 ≠ encode a.name :=
    fun k hk => nomatch hk
  simp only [attributesFrom_written _ h.keys h.distinct none]
  rfl

theorem Writable.getLast?_content (h : tag.Writable) : tag.content.getLast? ≠ some Byte.slash := by
  intro last
  have hm : Byte.slash ∈ tag.content := List.mem_of_getLast? last
  -- the last byte is one of the name, or the quote that closes the last value
  rcases List.eq_nil_or_concat tag.attributes with ha | ⟨attributes, a, ha⟩
  · rw [content, ha, attributesBytes, List.flatMap_nil, List.append_nil] at hm
    exact not_mem_name h.name (by decide) hm
  · rw [content, ha, List.concat_eq_append, attributesBytes, List.flatMap_append,
      List.flatMap_singleton, List.getLast?_append, List.getLast?_append, getLast?_attribute, Option.some_or,
      Option.some_or] at last
    exact absurd last (by decide)

end Tag

end SubtreeHarvest

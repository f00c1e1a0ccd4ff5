/-
Plain elements: names are ASCII without a colon, and nothing is declared. What such an element means
does not depend on where it stands, so a document understands its fragment by itself. Attributes are
brought in another order on the way; where names are distinct each still has its value.
-/
import Mathlib.Data.List.Nodup
import SubtreeHarvest.Proofs.Document.Written

namespace SubtreeHarvest

open Document Text

/-! ## Plain names -/

/-- ASCII letters, digits and three signs, with a letter or an underscore in front. -/
def isAsciiName (name : String) : Bool :=
  match name.toList with
  | [] => false
  | c :: cs => (c.isAlpha || c == '_') &&
      cs.all fun c => c.isAlphanum || c == '_' || c == '-' || c == '.'

theorem inRanges_of_mem {ranges : List (Nat × Nat)} {first last : Nat} {c : Char}
    (h : (first, last) ∈ ranges) (hf : first ≤ c.toNat) (hl : c.toNat ≤ last) : inRanges ranges c = true :=
  List.any_eq_true.2 ⟨_, h, by simp [hf, hl]⟩

theorem isNameStart_alpha {c : Char} (h : c.isAlpha = true) : isNameStart c = true := by
  have either : (c.isUpper || c.isLower) = true := h
  rcases Bool.or_eq_true_iff.1 either with upper | lower
  · obtain ⟨first, last⟩ := of_decide_eq_true upper
    exact inRanges_of_mem (by decide : (0x41, 0x5A) ∈ nameStartRanges) first last
  · obtain ⟨first, last⟩ := Bool.and_eq_true_iff.1 lower
    exact inRanges_of_mem (by decide : (0x61, 0x7A) ∈ nameStartRanges) (of_decide_eq_true first)
      (of_decide_eq_true last)

theorem isNameChar_digit {c : Char} (h : c.isDigit = true) : isNameChar c = true := by
  simp only [Char.isDigit, Bool.and_eq_true, decide_eq_true_eq] at h
  rw [isNameChar, inRanges_of_mem (by decide : (0x30, 0x39) ∈ nameExtraRanges) h.1 h.2, Bool.or_true]

theorem isNameStart_ascii {c : Char} (h : (c.isAlpha || c == '_') = true) : isNameStart c = true := by
  rw [Bool.or_eq_true, beq_iff_eq] at h
  rcases h with alpha | rfl
  · exact isNameStart_alpha alpha
  · decide

theorem isNameChar_ascii {c : Char} (h : (c.isAlphanum || c == '_' || c == '-' || c == '.') = true) :
    isNameChar c = true := by
  simp only [Char.isAlphanum, Bool.or_eq_true, beq_iff_eq] at h
  rcases h with (((alpha | digit) | rfl) | rfl) | rfl
  · rw [isNameChar, isNameStart_alpha alpha, Bool.true_or]
  · exact isNameChar_digit digit
  all_goals decide

/-- A document understands an ASCII name as a local name. -/
theorem ofChars?_ascii {name : String} (h : isAsciiName name = true) :
    QualifiedName.ofChars? name.toList = some ⟨none, name⟩ := by
  have plain : isPlainName name.toList = true := by
    unfold isAsciiName at h
    cases hc : name.toList with
    | nil => rw [hc] at h; cases h
    | cons c cs =>
      rw [hc] at h
      obtain ⟨start, more⟩ := Bool.and_eq_true_iff.1 h
      rw [isPlainName, isNameStart_ascii start, Bool.true_and, List.all_eq_true]
      exact fun d hd => isNameChar_ascii (List.all_eq_true.1 more d hd)
  have colonless : cut [':'] name.toList = none := by
    refine cut_of_not_mem List.mem_cons_self fun hm => ?_
    exact absurd ((forall_of_isPlainName plain).2 ':' hm) (by decide)
  simp only [QualifiedName.ofChars?, colonless, plain, if_true, String.ofList_toList]

/-! ## Plain tags -/

/-- Where a condition fails throughout, parting by it leaves everything on one side. -/
theorem partition_of_false {α : Type} {p : α → Bool} {as : List α} (h : ∀ a ∈ as, p a = false) :
    as.partition p = ([], as) := by
  have kept : ∀ a ∈ as, (not ∘ p) a = true := by
    intro a ha
    rw [Function.comp_apply, h a ha, Bool.not_false]
  rw [List.partition_eq_filter_filter, List.filter_eq_self.2 kept,
    List.filter_eq_nil_iff.2 fun a ha => Bool.eq_false_iff.1 (h a ha)]

theorem mapM_eq_some {α β : Type} {f : α → Option β} {g : α → β} : ∀ {as : List α},
    (∀ a ∈ as, f a = some (g a)) → as.mapM f = some (as.map g)
  | [], _ => rfl
  | a :: as, h => by
    obtain ⟨one, h⟩ := List.forall_mem_cons.1 h
    rw [List.mapM_cons, one, mapM_eq_some h]
    rfl

namespace Tag

/-- Names are ASCII, no two attributes have the same one, and none declares anything. -/
structure Plain (tag : Tag) : Prop where
  name : isAsciiName tag.name = true
  keys : ∀ a ∈ tag.attributes, isAsciiName a.name = true ∧ a.name ≠ declarator
  distinct : (tag.attributes.map Attribute.name).Nodup

instance (tag : Tag) : Decidable tag.Plain :=
  decidable_of_iff (isAsciiName tag.name = true ∧
      (∀ a ∈ tag.attributes, isAsciiName a.name = true ∧ a.name ≠ declarator) ∧
      (tag.attributes.map Attribute.name).Nodup)
    ⟨fun ⟨name, keys, distinct⟩ => ⟨name, keys, distinct⟩, fun h => ⟨h.name, h.keys, h.distinct⟩⟩

/-- The value that a tag gives to an attribute; empty when it has none of that name. -/
def value (tag : Tag) (name : String) : String :=
  ((tag.attributes.find? (·.name == name)).map Attribute.value).getD ""

/-- The attributes of a plain tag as a document understands them. -/
def fields (tag : Tag) : List (QualifiedName × String) :=
  tag.attributes.map fun a => (⟨none, a.name⟩, a.value)

variable {tag : Tag}

theorem Plain.spells (h : tag.Plain) : Spells tag ⟨none, tag.name⟩ tag.fields where
  head := ofChars?_ascii h.name
  attributes := by
    apply mapM_eq_some
    intro a ha
    rw [Attribute.spelled?, ofChars?_ascii (h.keys a ha).1, Option.map_some]

/-- No attribute of a plain tag declares anything. -/
theorem Plain.not_declares (h : tag.Plain) : ∀ field ∈ tag.fields,
    declaresQualifier field = false ∧ declaresCommon field = false := by
  intro field hm
  obtain ⟨a, ha, rfl⟩ := List.mem_map.1 hm
  refine ⟨rfl, ?_⟩
  have other : (a.name == declarator) = false := beq_eq_false_iff_ne.2 (h.keys a ha).2
  rw [declaresCommon, other, Bool.false_and]

theorem Plain.nodup_fields (h : tag.Plain) : (tag.fields.map Prod.fst).Nodup := by
  have names : tag.fields.map Prod.fst = (tag.attributes.map Attribute.name).map (⟨none, ·⟩) := by
    simp [fields]
  rw [names]
  exact h.distinct.map fun a b same => (QualifiedName.mk.inj same).2

/-- Nothing is declared by a plain tag, and its attributes are brought in some order. -/
theorem Plain.ofList? (h : tag.Plain) : ∃ sorted, sorted.Perm tag.fields ∧
    TagFields.ofList? tag.fields = some ⟨[], none, sorted⟩ := by
  have perm := List.mergeSort_perm tag.fields fun a b => (compare a.1 b.1).isLE
  refine ⟨_, perm, ?_⟩
  have qualifiers := partition_of_false fun field hm => (h.not_declares field (perm.subset hm)).1
  have commons := partition_of_false fun field hm => (h.not_declares field (perm.subset hm)).2
  simp only [TagFields.ofList?, qualifiers, commons]
  rw [if_pos ⟨h.nodup_fields, by decide, by decide⟩]
  rfl

end Tag

/-! ## Attributes -/

/-- An attribute in no namespace. -/
def localAttribute (field : QualifiedName × String) : Name × String :=
  (⟨none, field.1.localName, none⟩, field.2)

/-- Attributes no two of which mean the same are all kept, in their order. -/
theorem foldl_setAttribute : ∀ (others seen : List (Name × String)),
    (seen ++ others).Pairwise (fun a b => a.1.same b.1 = false) →
      others.foldl Frame.setAttribute seen = seen ++ others
  | [], seen, _ => (List.append_nil seen).symm
  | other :: others, seen, h => by
    have new : seen.filter (fun one => !one.1.same other.1) = seen := by
      rw [List.filter_eq_self]
      intro a ha
      have differs := (List.pairwise_append.1 h).2.2 a ha other List.mem_cons_self
      simp only [differs, Bool.not_false]
    rw [List.append_cons] at h ⊢
    rw [List.foldl_cons, Frame.setAttribute, new, foldl_setAttribute others _ h]

/-- Where names are distinct, the attribute of a name is found in any order. -/
theorem find?_perm {fields sorted : List (QualifiedName × String)} (perm : sorted.Perm fields)
    (distinct : (fields.map (·.1.localName)).Nodup) (name : String) :
    sorted.find? (·.1.localName == name) = fields.find? (·.1.localName == name) := by
  cases hf : fields.find? (·.1.localName == name) with
  | none =>
    rw [List.find?_eq_none] at hf ⊢
    exact fun field hm => hf field (perm.subset hm)
  | some field =>
    have hm := List.mem_of_find?_eq_some hf
    have hn := List.find?_some hf
    obtain ⟨other, ho⟩ : ∃ other, sorted.find? (·.1.localName == name) = some other :=
      Option.isSome_iff_exists.1 (List.find?_isSome.2 ⟨field, perm.symm.subset hm, hn⟩)
    have named := List.find?_some ho
    rw [beq_iff_eq] at hn named
    rw [ho, List.inj_on_of_nodup_map distinct (perm.subset (List.mem_of_find?_eq_some ho)) hm
      (named.trans hn.symm)]

variable {tag : Tag}

theorem Tag.Plain.nodup_localNames (h : tag.Plain) : (tag.fields.map (·.1.localName)).Nodup := by
  have names : tag.fields.map (·.1.localName) = tag.attributes.map Attribute.name := by
    simp [Tag.fields]
  rw [names]
  exact h.distinct

/-- In whatever scope, a plain tag opens an element that has its attributes. -/
theorem Tag.Plain.opens (h : tag.Plain) (scope : Scope) : ∃ frame, Opens scope tag frame ∧
    ∃ sorted : List (QualifiedName × String), sorted.Perm tag.fields ∧
      frame.attributes = sorted.map localAttribute := by
  obtain ⟨sorted, perm, fields⟩ := h.ofList?
  have unqualified : ∀ field ∈ sorted, field.1.qualifier = none := by
    intro field hm
    obtain ⟨a, -, rfl⟩ := List.mem_map.1 (perm.subset hm)
    rfl
  have lookedUp (known : Declarations) : (sorted.mapM fun field =>
      (field.1.lookUp? known none).map (·, field.2)) = some (sorted.map localAttribute) := by
    apply mapM_eq_some
    intro field hm
    simp only [QualifiedName.lookUp?, unqualified field hm, Option.map_some, localAttribute]
  have distinct : (sorted.map localAttribute).Pairwise fun a b => a.1.same b.1 = false := by
    have names := (perm.map (·.1.localName)).nodup_iff.2 h.nodup_localNames
    rw [List.pairwise_map]
    refine (List.pairwise_map.1 names).imp fun {a b} other => ?_
    have differs : ((localAttribute a).1.localName == (localAttribute b).1.localName) = false :=
      beq_eq_false_iff_ne.2 other
    rw [Name.same, differs, Bool.and_false]
  have begins : Frame.begin? scope ⟨none, tag.name⟩ tag.fields =
      some ⟨⟨none, tag.name⟩, ⟨scope.ownCommon ⟨[], none, sorted⟩, tag.name, none⟩,
        (sorted.map localAttribute).foldl Frame.setAttribute [], scope.declared ⟨[], none, sorted⟩,
        scope.within ⟨none, tag.name⟩ ⟨[], none, sorted⟩, []⟩ := by
    simp only [Frame.begin?, fields, lookedUp, Option.bind_eq_bind, Option.bind_some]
    rfl
  exact ⟨_, ⟨_, _, h.spells, begins⟩, sorted, perm, foldl_setAttribute _ [] distinct⟩

/-- The value of an attribute is the one that the tag gives, whatever order the attributes are in. -/
theorem attributeValue_localAttribute {fields : List (QualifiedName × String)} (h : tag.Plain)
    (perm : fields.Perm tag.fields) (element : Name) (declared : Declarations) (trees : List Tree)
    (name : String) :
    (Tree.element element (fields.map localAttribute) declared trees).attributeValue name =
      tag.value name := by
  have found : (fields.map localAttribute).find? (fun a => a.1.space.isNone && a.1.localName == name) =
      (tag.attributes.find? (·.name == name)).map fun a => localAttribute (⟨none, a.name⟩, a.value) := by
    have one : (fields.map localAttribute).find? (fun a => a.1.space.isNone && a.1.localName == name) =
        (fields.find? (·.1.localName == name)).map localAttribute := List.find?_map
    rw [one, find?_perm perm h.nodup_localNames, Tag.fields, List.find?_map, Option.map_map]
    rfl
  rw [Tree.attributeValue, Tree.attributes, found, Tag.value]
  cases tag.attributes.find? (·.name == name) <;> rfl

/-! ## Plain elements -/

namespace Forest

/-- Tags are plain, and no character data section holds the mark that ends one. -/
def Plain : Forest → Prop
  | .empty => True
  | .element tag inside behind => tag.Plain ∧ inside.Plain ∧ behind.Plain
  | .text _ behind => behind.Plain
  | .cdata content behind => ¬ "]]>".toList <:+: content.toList ∧ behind.Plain

instance decidablePlain : ∀ forest : Forest, Decidable forest.Plain
  | .empty => isTrue trivial
  | .element tag inside behind =>
    have := decidablePlain inside
    have := decidablePlain behind
    inferInstanceAs (Decidable (tag.Plain ∧ inside.Plain ∧ behind.Plain))
  | .text _ behind => decidablePlain behind
  | .cdata content behind =>
    have := decidablePlain behind
    inferInstanceAs (Decidable (¬ "]]>".toList <:+: content.toList ∧ behind.Plain))

/-- A document understands a plain forest wherever it stands. -/
theorem Plain.readable : ∀ {forest : Forest}, forest.Plain → ∀ scope, forest.Readable scope
  | .empty, _, _ => trivial
  | .element _ _ _, ⟨ht, hi, hb⟩, scope =>
    have ⟨frame, opens, _⟩ := ht.opens scope
    ⟨⟨frame, opens, hi.readable frame.scope⟩, hb.readable scope⟩
  | .text _ behind, h, scope => @Plain.readable behind h scope
  | .cdata _ _, ⟨without, h⟩, scope => ⟨without, h.readable scope⟩

/-- The elements of a plain forest are plain, with all they hold. -/
theorem Plain.of_mem : ∀ {forest : Forest} {start : Nat} {above : List Tag} {e : Element},
    forest.Plain → e ∈ forest.elementsFrom start above → e.tag.Plain ∧ e.inside.Plain
  | .element tag inside behind, _, _, e, ⟨ht, hi, hb⟩, he => by
    simp only [elementsFrom, List.mem_cons, List.mem_append] at he
    rcases he with rfl | he | he
    · exact ⟨ht, hi⟩
    · exact hi.of_mem he
    · exact hb.of_mem he
  | .text _ behind, _, _, _, h, he => @Plain.of_mem behind _ _ _ h he
  | .cdata _ _, _, _, _, ⟨_, h⟩, he => h.of_mem he

end Forest

end SubtreeHarvest

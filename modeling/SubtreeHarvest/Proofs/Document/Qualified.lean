/-
The qualifiers that an element needs. A document understands a start tag exactly when each qualifier
of its name and of its attributes is declared there, on the tag itself or on one around it that the
document has read too; what is declared for nothing, or twice, it does not understand. So an element
can be read by itself exactly when everything that it and the elements in it need is declared in it.

Only which qualifiers are known matters for this, not the addresses that they are declared for. The
scope of a document is therefore followed by the list of the qualifiers that it knows.
-/
import Mathlib.Data.List.Nodup
import SubtreeHarvest.Proofs.Document.Written

namespace SubtreeHarvest

namespace Document

variable {fields : List (QualifiedName × String)} {name : QualifiedName} {known : List String} {scope : Scope}

/-! ## What a tag needs -/

/-- The qualifiers that attributes declare. -/
def declaredBy (fields : List (QualifiedName × String)) : List String :=
  (fields.filter declaresQualifier).map (·.1.localName)

/-- The qualifiers that are known within an element, given its attributes and what is known around it.
One of them need not be declared. -/
def knownWithin (fields : List (QualifiedName × String)) (known : List String) : List String :=
  commonQualifier.1 :: (declaredBy fields ++ known)

/-- The qualifier of a name, if it has one, is among some. -/
def QualifiedName.Among (name : QualifiedName) (qualifiers : List String) : Prop :=
  ∀ qualifier ∈ name.qualifier, qualifier ∈ qualifiers

/-- A document can understand a start tag with the given name and attributes, where some qualifiers are
known. The name of the element at the top must have its qualifier declared, whichever it is. -/
structure Understands (known : List String) (name : QualifiedName)
    (fields : List (QualifiedName × String)) : Prop where
  distinct : (fields.map Prod.fst).Nodup
  common : (fields.filter declaresCommon).length ≤ 1
  addresses : ∀ field ∈ fields, declaresQualifier field = true → field.2 ≠ ""
  name : name.Among (declaredBy fields ++ known)
  attributes : ∀ field ∈ fields, declaresQualifier field = false → declaresCommon field = false →
    field.1.Among (knownWithin fields known)

instance : Decidable (name.Among known) :=
  inferInstanceAs (Decidable (∀ qualifier ∈ name.qualifier, qualifier ∈ known))

instance : Decidable (Understands known name fields) :=
  decidable_of_iff ((fields.map Prod.fst).Nodup ∧ (fields.filter declaresCommon).length ≤ 1 ∧
      (∀ field ∈ fields, declaresQualifier field = true → field.2 ≠ "") ∧
      name.Among (declaredBy fields ++ known) ∧
      ∀ field ∈ fields, declaresQualifier field = false → declaresCommon field = false →
        field.1.Among (knownWithin fields known))
    ⟨fun ⟨distinct, common, addresses, name, attributes⟩ => ⟨distinct, common, addresses, name, attributes⟩,
      fun h => ⟨h.distinct, h.common, h.addresses, h.name, h.attributes⟩⟩

/-! ## Attributes -/

/-- What attributes are for, by the condition on each kind. -/
theorem ofList?_eq_some_iff {tagFields : TagFields} :
    let sorted := fields.mergeSort fun a b => (compare a.1 b.1).isLE
    TagFields.ofList? fields = some tagFields ↔
      ((fields.map Prod.fst).Nodup ∧ (fields.filter declaresCommon).length ≤ 1 ∧
        ∀ field ∈ fields, declaresQualifier field = true → field.2 ≠ "") ∧
      ⟨(sorted.filter declaresQualifier).map fun (name, address) => (name.localName, address),
        (sorted.filter declaresCommon).head?.map Prod.snd,
        sorted.filter fun field => !declaresCommon field && !declaresQualifier field⟩ = tagFields := by
  intro sorted
  have perm : sorted.Perm fields := List.mergeSort_perm ..
  -- an attribute that gives an address to elements without a qualifier declares no qualifier
  have commons : (sorted.filter (not ∘ declaresQualifier)).filter declaresCommon =
      sorted.filter declaresCommon := by
    rw [List.filter_filter]
    refine List.filter_congr fun field _ => ?_
    simp only [declaresCommon, Function.comp_apply, Bool.and_assoc, Bool.and_self]
  have others : (sorted.filter (not ∘ declaresQualifier)).filter (not ∘ declaresCommon) =
      sorted.filter fun field => !declaresCommon field && !declaresQualifier field := List.filter_filter
  have addresses : (sorted.filter declaresQualifier).all (!·.2.isEmpty) = true ↔
      ∀ field ∈ fields, declaresQualifier field = true → field.2 ≠ "" := by
    simp only [List.all_eq_true, List.mem_filter, perm.mem_iff, and_imp, Bool.not_eq_true',
      String.isEmpty_eq_false_iff]
  have length : (sorted.filter declaresCommon).length = (fields.filter declaresCommon).length :=
    (perm.filter _).length_eq
  rw [TagFields.ofList?]
  simp only [List.partition_eq_filter_filter]
  rw [commons, others, length, ← addresses, Option.ite_none_right_eq_some, Option.some_inj]

theorem mem_map_fst_declared {tagFields : TagFields} (h : TagFields.ofList? fields = some tagFields)
    (qualifier : String) : qualifier ∈ tagFields.declared.map Prod.fst ↔ qualifier ∈ declaredBy fields := by
  obtain ⟨-, rfl⟩ := ofList?_eq_some_iff.1 h
  have perm := List.mergeSort_perm fields fun a b => (compare a.1 b.1).isLE
  rw [List.map_map]
  exact ((perm.filter declaresQualifier).map _).mem_iff

theorem mem_attributes {tagFields : TagFields} (h : TagFields.ofList? fields = some tagFields)
    (field : QualifiedName × String) : field ∈ tagFields.attributes ↔
      field ∈ fields ∧ declaresQualifier field = false ∧ declaresCommon field = false := by
  obtain ⟨-, rfl⟩ := ofList?_eq_some_iff.1 h
  have perm := List.mergeSort_perm fields fun a b => (compare a.1 b.1).isLE
  rw [List.mem_filter, perm.mem_iff]
  simp [and_comm]

/-! ## Scopes -/

/-- The qualifiers known in a scope are those of a list, and with any at all the common one. -/
structure Knows (scope : Scope) (known : List String) : Prop where
  mem : ∀ qualifier, qualifier ∈ scope.known.map Prod.fst ↔ qualifier ∈ known
  common : scope.known = [] ∨ commonQualifier.1 ∈ known

theorem knows_outside : Knows .outside [] :=
  ⟨fun _ => Iff.rfl, .inl rfl⟩

theorem mem_map_fst_declare (declaration : String × String) (qualifier : String) :
    ∀ declarations : Declarations,
      qualifier ∈ (declarations.declare declaration).map Prod.fst ↔
        qualifier = declaration.1 ∨ qualifier ∈ declarations.map Prod.fst
  | [] => by simp [Declarations.declare]
  | other :: others => by
    rw [Declarations.declare]
    split
    · rename_i same
      simp [same]
    · have later := mem_map_fst_declare declaration qualifier others
      rw [List.map_cons, List.map_cons, List.mem_cons, List.mem_cons, later]
      exact or_left_comm

/-- A name is found exactly where its qualifier is known. -/
theorem isSome_lookUp?_iff {declarations : Declarations} {common : Option String}
    (h : ∀ qualifier, qualifier ∈ declarations.map Prod.fst ↔ qualifier ∈ known) :
    (name.lookUp? declarations common).isSome = true ↔ name.Among known := by
  rw [QualifiedName.lookUp?, QualifiedName.Among]
  cases name.qualifier with
  | none => simp
  | some qualifier =>
    simp only [Option.isSome_map, Option.mem_def, Option.some.injEq, forall_eq', ← h]
    rw [← not_iff_not, Option.not_isSome_iff_eq_none, List.lookup_eq_none_iff, List.mem_map, not_exists]
    refine forall_congr' fun declaration => ?_
    rw [bne_iff_ne, not_and, eq_comm]

/-- Within an element the qualifiers are known that it declares and those known around it. -/
theorem Knows.within {tagFields : TagFields} (knows : Knows scope known)
    (h : TagFields.ofList? fields = some tagFields) (spelled : QualifiedName) :
    Knows (scope.within spelled tagFields) (knownWithin fields known) := by
  refine ⟨fun qualifier => ?_, .inr List.mem_cons_self⟩
  have around := knows.mem qualifier
  have declared := mem_map_fst_declared h qualifier
  rw [Scope.within, List.map_append, List.mem_append, around, Scope.declared, knownWithin, List.mem_cons,
    List.mem_append]
  cases hk : scope.known with
  | nil =>
    rw [List.isEmpty_nil, if_pos rfl, mem_map_fst_declare, declared, or_assoc]
  | cons first rest =>
    have common : commonQualifier.1 ∈ known :=
      knows.common.resolve_left (by rw [hk]; exact List.cons_ne_nil _ _)
    rw [List.isEmpty_cons, if_neg Bool.false_ne_true, declared]
    constructor
    · exact .inr
    · rintro (rfl | h)
      · exact .inr common
      · exact h

theorem isSome_mapM_iff {α β : Type} {f : α → Option β} : ∀ {as : List α},
    (as.mapM f).isSome = true ↔ ∀ a ∈ as, (f a).isSome = true
  | [] => ⟨fun _ => List.forall_mem_nil _, fun _ => rfl⟩
  | a :: as => by
    rw [List.forall_mem_cons, ← isSome_mapM_iff, List.mapM_cons]
    cases f a with
    | none => simp
    | some b => cases as.mapM f <;> simp

theorem mem_map_fst_declared_append {tagFields : TagFields} {declarations : Declarations}
    {qualifiers : List String} (h : TagFields.ofList? fields = some tagFields)
    (hd : ∀ qualifier, qualifier ∈ declarations.map Prod.fst ↔ qualifier ∈ qualifiers) (qualifier : String) :
    qualifier ∈ (tagFields.declared ++ declarations).map Prod.fst ↔
      qualifier ∈ declaredBy fields ++ qualifiers := by
  rw [List.map_append, List.mem_append, List.mem_append, mem_map_fst_declared h, hd]

/-- What a tag declares is known within its element, and does not add to it. -/
theorem among_declared_append_iff : name.Among (declaredBy fields ++ knownWithin fields known) ↔
    name.Among (knownWithin fields known) := by
  have absorbed (qualifier : String) : qualifier ∈ declaredBy fields ++ knownWithin fields known ↔
      qualifier ∈ knownWithin fields known := by
    rw [List.mem_append, or_iff_right_iff_imp]
    exact fun h => List.mem_cons_of_mem _ (List.mem_append_left _ h)
  simp only [QualifiedName.Among, absorbed]

/-- The attributes that are no declarations are found exactly where their qualifiers are known. -/
theorem isSome_mapM_lookUp?_iff {tagFields : TagFields} (knows : Knows scope known)
    (h : TagFields.ofList? fields = some tagFields) (spelled : QualifiedName) :
    (tagFields.attributes.mapM fun field : QualifiedName × String =>
      (field.1.lookUp? (tagFields.declared ++ (scope.within spelled tagFields).known) none).map
        (·, field.2)).isSome = true ↔
      ∀ field ∈ fields, declaresQualifier field = false → declaresCommon field = false →
        field.1.Among (knownWithin fields known) := by
  have found := mem_map_fst_declared_append h (knows.within h spelled).mem
  rw [isSome_mapM_iff]
  simp only [mem_attributes h, Option.isSome_map, isSome_lookUp?_iff found, among_declared_append_iff, and_imp]

/-- An element begins exactly at the tags that a document can understand. -/
theorem exists_begin?_iff (knows : Knows scope known) :
    (∃ frame, Frame.begin? scope name fields = some frame) ↔ Understands known name fields := by
  simp only [Frame.begin?, Option.bind_eq_bind, Option.bind_eq_some_iff]
  constructor
  · rintro ⟨frame, tagFields, h, elementName, hn, attributes, ha, -⟩
    obtain ⟨⟨distinct, common, addresses⟩, -⟩ := ofList?_eq_some_iff.1 h
    refine ⟨distinct, common, addresses, ?_, ?_⟩
    · exact (isSome_lookUp?_iff (mem_map_fst_declared_append h knows.mem)).1 (Option.isSome_of_eq_some hn)
    · exact (isSome_mapM_lookUp?_iff knows h name).1 (Option.isSome_of_eq_some ha)
  · intro understands
    have h := ofList?_eq_some_iff.2
      ⟨⟨understands.distinct, understands.common, understands.addresses⟩, rfl⟩
    obtain ⟨elementName, hn⟩ := Option.isSome_iff_exists.1
      ((isSome_lookUp?_iff (mem_map_fst_declared_append h knows.mem)).2 understands.name)
    obtain ⟨attributes, ha⟩ := Option.isSome_iff_exists.1
      ((isSome_mapM_lookUp?_iff knows h name).2 understands.attributes)
    exact ⟨_, _, h, elementName, hn, attributes, ha, rfl⟩

/-- Within the element that begins at a tag the qualifiers are known that it declares, and those known
around it. -/
theorem knows_of_begin? {frame : Frame} (knows : Knows scope known)
    (h : Frame.begin? scope name fields = some frame) : Knows frame.scope (knownWithin fields known) := by
  simp only [Frame.begin?, Option.bind_eq_bind, Option.bind_eq_some_iff] at h
  obtain ⟨tagFields, hf, _, -, _, -, h⟩ := h
  cases h
  exact knows.within hf name

end Document

/-! ## Forests -/

namespace Forest

open Document

/-- A document can understand the forest where some qualifiers are known. -/
def Understood (known : List String) : Forest → Prop
  | .empty => True
  | .element tag inside behind =>
    (match spelling? tag with
    | some (name, fields) => Understands known name fields ∧ inside.Understood (knownWithin fields known)
    | none => False) ∧ behind.Understood known
  | .text _ behind => behind.Understood known
  | .cdata _ behind => behind.Understood known

/-- All names are words, and no character data section holds the mark that ends one. -/
def Worded : Forest → Prop
  | .empty => True
  | .element tag inside behind => Document.Worded tag ∧ inside.Worded ∧ behind.Worded
  | .text _ behind => behind.Worded
  | .cdata content behind => ¬ "]]>".toList <:+: content.toList ∧ behind.Worded

instance decidableUnderstood : ∀ (known : List String) (forest : Forest), Decidable (forest.Understood known)
  | _, .empty => isTrue trivial
  | known, .element tag inside behind =>
    have := decidableUnderstood known behind
    have : Decidable (match spelling? tag with
      | some (name, fields) => Understands known name fields ∧ inside.Understood (knownWithin fields known)
      | none => False) :=
      match spelling? tag with
      | some (_, fields) =>
        have := decidableUnderstood (knownWithin fields known) inside
        inferInstanceAs (Decidable (_ ∧ _))
      | none => isFalse id
    inferInstanceAs (Decidable (_ ∧ _))
  | known, .text _ behind => decidableUnderstood known behind
  | known, .cdata _ behind => decidableUnderstood known behind

instance decidableWorded : ∀ forest : Forest, Decidable forest.Worded
  | .empty => isTrue trivial
  | .element tag inside behind =>
    have := decidableWorded inside
    have := decidableWorded behind
    inferInstanceAs (Decidable (Document.Worded tag ∧ inside.Worded ∧ behind.Worded))
  | .text _ behind => decidableWorded behind
  | .cdata content behind =>
    have := decidableWorded behind
    inferInstanceAs (Decidable (¬ "]]>".toList <:+: content.toList ∧ behind.Worded))

theorem understood_element_iff {known : List String} {tag : Tag} {inside behind : Forest} :
    (Forest.element tag inside behind).Understood known ↔
      (∃ name fields, Spells tag name fields ∧ Understands known name fields ∧
        inside.Understood (knownWithin fields known)) ∧ behind.Understood known := by
  refine and_congr_left fun _ => ?_
  simp only [← spelling?_eq_some_iff]
  cases spelling? tag with
  | none => simp
  | some spelled => simp [Prod.ext_iff]

/-- Reading follows what is known. -/
theorem readable_iff : ∀ {forest : Forest} {scope : Scope} {known : List String}, forest.Worded →
    Knows scope known → (forest.Readable scope ↔ forest.Understood known)
  | .empty, _, _, _, _ => Iff.rfl
  | .text _ behind, _, _, h, knows => @readable_iff behind _ _ h knows
  | .cdata _ behind, _, _, ⟨without, h⟩, knows =>
    (and_iff_right without).trans (@readable_iff behind _ _ h knows)
  | .element tag inside behind, scope, known, ⟨_, hi, hb⟩, knows => by
    rw [understood_element_iff]
    refine and_congr ⟨?_, ?_⟩ (readable_iff hb knows)
    · rintro ⟨frame, ⟨name, fields, spells, begins⟩, readable⟩
      have within := (readable_iff hi (knows_of_begin? knows begins)).1 readable
      exact ⟨name, fields, spells, (exists_begin?_iff knows).1 ⟨frame, begins⟩, within⟩
    · rintro ⟨name, fields, spells, understands, within⟩
      obtain ⟨frame, begins⟩ := (exists_begin?_iff knows).2 understands
      have readable := (readable_iff hi (knows_of_begin? knows begins)).2 within
      exact ⟨frame, ⟨name, fields, spells, begins⟩, readable⟩

/-- In the elements of a forest whose names are words, names are words. -/
theorem Worded.of_mem : ∀ {forest : Forest} {start : Nat} {above : List Tag} {e : Element},
    forest.Worded → e ∈ forest.elementsFrom start above → Document.Worded e.tag ∧ e.inside.Worded
  | .element tag inside behind, _, _, e, ⟨ht, hi, hb⟩, he => by
    simp only [elementsFrom, List.mem_cons, List.mem_append] at he
    rcases he with rfl | he | he
    · exact ⟨ht, hi⟩
    · exact hi.of_mem he
    · exact hb.of_mem he
  | .text _ behind, _, _, _, h, he => @Worded.of_mem behind _ _ _ h he
  | .cdata _ _, _, _, _, ⟨_, h⟩, he => h.of_mem he

end Forest

/-- A document can understand the element by itself: what it and the elements in it need is declared in
it. -/
def Element.SelfContained (e : Element) : Prop :=
  (Forest.element e.tag e.inside .empty).Understood []

instance (e : Element) : Decidable e.SelfContained :=
  inferInstanceAs (Decidable (Forest.Understood [] _))

namespace Document

open Text Markup Event

theorem selfContained_iff {e : Element} (ht : Worded e.tag) (hi : e.inside.Worded) :
    e.SelfContained ↔ ∃ frame, Opens .outside e.tag frame ∧ e.inside.Readable frame.scope := by
  have worded : (Forest.element e.tag e.inside .empty).Worded := ⟨ht, hi, trivial⟩
  rw [Element.SelfContained, ← Forest.readable_iff worded knows_outside]
  exact and_iff_left trivial

/-! ## What is not read -/

variable {nesting : Nesting} {tag : Tag} {rest : List Char}

/-- Where no element can be opened by a start tag, reading fails at it. -/
theorem readOn?_startTag_none (h : Worded tag) (unopened : ¬ ∃ frame, Opens nesting.scope tag frame) :
    readOn? nesting ((Event.startTag tag).written.toList ++ rest) = none := by
  rw [toList_startTag, List.cons_append, List.append_assoc, List.singleton_append]
  cases ht : spelling? tag with
  | none =>
    refine readOn?_of_token?_none ?_
    rw [h.token?, ht, Option.map_none]
  | some spelled =>
    obtain ⟨name, fields⟩ := spelled
    have spells := spelling?_eq_some_iff.1 ht
    have unbegun : Frame.begin? nesting.scope name fields = none := by
      rw [Option.eq_none_iff_forall_ne_some]
      exact fun frame begins => unopened ⟨frame, name, fields, spells, begins⟩
    have stopped : nesting.step? (.openTag name fields false) = none := by
      simp [Nesting.step?, unbegun]
    rw [readOn?_cons (token?_startTag spells rest), stopped, Option.bind_none]

/-- A forest that a document cannot understand is not read, whatever text is in front. -/
theorem readOn?_forest_none : ∀ (forest : Forest) (front : List Char) {top : List Tree} {frame : Frame}
    {around : List Frame} {rest : List Char}, forest.Worded → ¬ forest.Readable frame.scope →
      OpensMarkup rest → readOn? ⟨top, frame :: around, true⟩
        (front.flatMap textEscape ++ ((writtenAll forest.events).toList ++ rest)) = none
  | .empty, _, _, _, _, _, _, h, _ => absurd trivial h
  | .text content behind, front, top, frame, around, rest, worded, h, hr => by
    rw [toList_text_append]
    exact readOn?_forest_none behind (front ++ trimmed content.toList) worded h hr
  | .cdata content behind, front, top, frame, around, rest, ⟨without, worded⟩, h, hr => by
    rw [toList_cdata_append]
    obtain ⟨before, read, -⟩ := readOn?_text (opensMarkup_cdata content _) frame front
    have later := @readOn?_forest_none behind [] top ((frame.push before).push [.text (trim content)]) around
      rest worded (fun readable => h ⟨without, readable⟩) hr
    rw [read, readOn?_cdata without]
    exact later
  | .element tag inside behind, front, top, frame, around, rest, ⟨wordedTag, wordedInside, wordedBehind⟩,
      h, hr => by
    rw [toList_element_append]
    obtain ⟨before, read, -⟩ := readOn?_text (opensMarkup_startTag tag _) frame front
    rw [read]
    by_cases opened : ∃ inner, Opens frame.scope tag inner
    · obtain ⟨inner, opens⟩ := opened
      rw [readOn?_startTag ⟨top, frame.push before :: around, true⟩ opens rfl]
      by_cases readable : inside.Readable inner.scope
      · obtain ⟨trees, readInside, -⟩ := @readOn?_forest inside [] top inner (frame.push before :: around) _
          readable (opensMarkup_endTag tag.name ((writtenAll behind.events).toList ++ rest))
        have later := @readOn?_forest_none behind [] top
          ((frame.push before).push [.element inner.name inner.attributes inner.declared trees]) around rest
          wordedBehind (fun readableBehind => h ⟨⟨inner, opens, readable⟩, readableBehind⟩) hr
        rw [List.flatMap_nil, List.nil_append] at readInside later
        rw [readInside, readOn?_endTag opens, add_inside, later]
      · exact readOn?_forest_none inside [] wordedInside readable (opensMarkup_endTag tag.name _)
    · exact readOn?_startTag_none wordedTag opened

/-- From the fragment of an element that is not self-contained nothing is read. -/
theorem ofText?_fragment_none {e : Element} (ht : Worded e.tag) (hi : e.inside.Worded)
    (h : ¬ e.SelfContained) : ofText? e.fragment.text = none := by
  have parted := toList_fragment e
  have undeclared : behindDeclaration? e.fragment.text.toList = none := by
    rw [parted]
    exact behindDeclaration?_startTag ht _
  have unread : readOn? ⟨[], [], false⟩ e.fragment.text.toList = none := by
    rw [parted]
    by_cases opened : ∃ frame, Opens .outside e.tag frame
    · obtain ⟨frame, opens⟩ := opened
      have unreadable : ¬ e.inside.Readable frame.scope := fun readable =>
        h ((selfContained_iff ht hi).2 ⟨frame, opens, readable⟩)
      rw [readOn?_startTag ⟨[], [], false⟩ opens rfl]
      exact readOn?_forest_none e.inside [] hi unreadable (opensMarkup_endTag e.tag.name _)
    · exact readOn?_startTag_none ht opened
  rw [ofText?_of_undeclared undeclared, unread, Option.bind_none]

end Document

end SubtreeHarvest

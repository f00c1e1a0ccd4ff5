/-
The shape of a reading. What a plan reads has at every level the shape of the request there: a text
exactly when it was asked for, the attributes that were asked for and the selectors that were asked
for, each once and in the order of the request, whether or not anything was found. So a look-up in a
reading fails for what was not asked for, and for nothing else.
-/
import SubtreeHarvest.Proofs.Plan.Element

namespace SubtreeHarvest

variable {request below : Request} {reading found : Reading}

/-- A reading has the shape of a request, at every level. -/
inductive Reading.Conforms : Request → Reading → Prop
  | intro {request : Request} {reading : Reading} :
      reading.text.isSome = request.wantsText →
      reading.values.names = request.names →
      reading.under.names = request.under.names →
      (∀ asked read, (asked, read) ∈ request.children.zip reading.children →
        ∀ found ∈ read.2, Conforms asked.2 found) →
      Conforms request reading

/-- A level of a request with one of the readings that were made for it: the request itself, or a
level of the request under one of its selectors and of a reading under the same selector. -/
inductive Reading.Level : Request → Reading → Request → Reading → Prop
  | top {request : Request} {reading : Reading} : Level request reading request reading
  | beneath {request below : Request} {reading first found : Reading} {asked : String × Request}
      {read : String × List Reading} : (asked, read) ∈ request.children.zip reading.children →
      first ∈ read.2 → Level asked.2 first below found → Level request reading below found

namespace Reading

/-- What conforms does so at every level. -/
theorem Conforms.of_level (h : Conforms request reading) (level : Level request reading below found) :
    Conforms below found := by
  induction level with
  | top => exact h
  | beneath pair within _ ih =>
    cases h with
    | intro _ _ _ children => exact ih (children _ _ pair _ within)

theorem Conforms.text_eq_none_iff (h : Conforms request reading) :
    reading.text = none ↔ request.wantsText = false := by
  cases h with
  | intro text _ _ _ => rw [← text, Option.isSome_eq_false_iff, Option.isNone_iff_eq_none]

theorem Conforms.attribute?_eq_none_iff (h : Conforms request reading) (name : String) :
    reading.attribute? name = none ↔ name ∉ request.names := by
  cases h with
  | intro _ names _ _ => rw [attribute?, Table.get?_eq_none_iff, names]

theorem Conforms.find?_eq_none_iff (h : Conforms request reading) (selector : String) :
    reading.find? selector = none ↔ selector ∉ request.under.names := by
  cases h with
  | intro _ _ selectors _ => rw [find?, Table.get?_eq_none_iff, selectors]

/-- The readings under a selector that was asked for. -/
theorem Conforms.level_of_find? (h : Conforms request reading) {selector : String} {child : Request}
    (asked : request.under.get? selector = some child) :
    ∃ readings, reading.find? selector = some readings ∧
      ∀ found ∈ readings, Level request reading child found := by
  cases h with
  | intro _ _ selectors _ =>
    obtain ⟨readings, found, pair⟩ := Table.exists_mem_zip_of_get? selectors asked
    exact ⟨readings, found, fun _ within => .beneath pair within .top⟩

end Reading

namespace Plan

open Reading

variable {compiled : CompiledSelectors} {document : Document} {path : List Nat}

theorem exists_of_forall₂_of_mem {α β : Type} {R : α → β → Prop} {as : List α} {bs : List β} {b : β}
    (h : List.Forall₂ R as bs) (hb : b ∈ bs) : ∃ a ∈ as, R a b := by
  induction h with
  | nil => cases hb
  | cons first _ ih =>
    rcases List.mem_cons.1 hb with rfl | hb
    · exact ⟨_, List.mem_cons_self, first⟩
    · obtain ⟨a, ha, later⟩ := ih hb
      exact ⟨a, List.mem_cons_of_mem _ ha, later⟩

/-- What is read from an element has the shape of the request. -/
theorem conforms_of_readElement (request : Request) : ∀ {path : List Nat} {reading : Reading},
    readElement compiled document path request = .ok reading → Conforms request reading := by
  induction request using Request.induct with
  | step request ih =>
    intro path reading h
    obtain ⟨text, values, selectors, children⟩ := readElement_eq_ok_iff.1 h
    refine .intro ?_ (values ▸ rfl) selectors fun asked read pair found within => ?_
    · rw [text]
      cases request.wantsText <;> rfl
    · obtain ⟨-, paths, -, each⟩ := (List.forall₂_iff_zip.1 children).2 pair
      obtain ⟨below, -, read⟩ := exists_of_forall₂_of_mem each within
      exact ih _ _ (List.of_mem_zip pair).1 read

/-- What a plan that was made from a request reads from a text has the shape of the request, at every
level: the text is there exactly where it is wanted, the attributes and the selectors are those asked
for, in order, and each selector has its one entry, however many elements it reached. At every level
the look-ups that fail are those of selectors and of attributes that are not asked for there. -/
theorem conforms_of_read {request : Request} {plan : Plan} (hc : compile request = .ok plan) {text : String}
    {reading : Reading} (hr : plan.read text = .ok reading) :
    Conforms request reading ∧ ∀ {below : Request} {found : Reading}, Level request reading below found →
      (found.text = none ↔ below.wantsText = false) ∧
      (∀ selector, found.find? selector = none ↔ selector ∉ below.under.names) ∧
      ∀ name, found.attribute? name = none ↔ name ∉ below.names := by
  have conforms : Conforms request reading := by
    rcases read_cases text with ⟨failure, -, unread⟩ | ⟨document, path, reads⟩
    · cases (unread plan).symm.trans hr
    · rw [reads, (holds_of_compile hc).1] at hr
      exact conforms_of_readElement request hr
  refine ⟨conforms, fun level => ?_⟩
  have there := conforms.of_level level
  exact ⟨there.text_eq_none_iff, there.find?_eq_none_iff, there.attribute?_eq_none_iff⟩

/-- A selector that reaches nothing and one whose value is a number have their entries, and there is a
level for the element that the third selector reaches. -/
theorem conforms_of_read_nested :
    let inner : Request := Request.empty.askChild "c" Request.empty.askText
    let request := (((Request.empty.askText.askAttribute "x").askChild "b" inner).askChild "d" inner).askChild
      "count(b)" inner
    let text := "<a x='1'>t<b><c>u</c></b></a>"
    ∃ plan reading, compile request = .ok plan ∧ plan.read text = .ok reading ∧
      Conforms request reading ∧ reading.text ≠ none ∧ reading.attribute? "x" ≠ none ∧
      reading.attribute? "y" = none ∧ reading.find? "d" ≠ none ∧ reading.find? "count(b)" ≠ none ∧
      reading.find? "c" = none ∧ ∃ found, reading.find? "b" = some [found] ∧
        found.text = none ∧ found.find? "c" ≠ none ∧ found.find? "b" = none := by
  intro inner request text
  have run : (match compile request with
    | .ok plan => match plan.read text with
      | .ok reading => (reading.find? "b").any fun readings => readings.length == 1
      | .error _ => false
    | .error _ => false) = true := by decide +kernel
  cases hc : compile request with
  | error failure => rw [hc] at run; cases run
  | ok plan =>
    simp only [hc] at run
    cases hr : plan.read text with
    | error failure => rw [hr] at run; cases run
    | ok reading =>
      rw [hr] at run
      obtain ⟨conforms, levels⟩ := conforms_of_read hc hr
      obtain ⟨readings, there, below⟩ := conforms.level_of_find?
        (rfl : request.under.get? "b" = some inner)
      obtain ⟨_, there', one⟩ := (Option.any_eq_true _ _).1 run
      cases there.symm.trans there'
      obtain ⟨found, rfl⟩ := List.length_eq_one_iff.1 (beq_iff_eq.1 one)
      obtain ⟨text, find, names⟩ := levels .top
      obtain ⟨textBelow, findBelow, -⟩ := levels (below found List.mem_cons_self)
      refine ⟨plan, reading, rfl, hr, conforms, mt text.1 nofun, mt (names _).1 ?_, (names _).2 ?_,
        mt (find _).1 ?_, mt (find _).1 ?_, (find _).2 ?_, found, there, textBelow.2 rfl,
        mt (findBelow _).1 ?_, (findBelow _).2 ?_⟩
      all_goals decide

end Plan

end SubtreeHarvest

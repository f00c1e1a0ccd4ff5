/-
The lines of a run that is asked for readings. Split at line feeds, its output gives the JSON of every
reading that is found, in order, and behind the last line feed nothing: there is no line feed in any of
them. As readings are told from their JSON, the output tells what was found.
-/
import SubtreeHarvest.Proofs.Command.Run
import SubtreeHarvest.Proofs.Reading.Json

namespace SubtreeHarvest

/-- Lines without line feeds, each with one behind it, are what is found between the line feeds. -/
theorem Text.splitOn_lines : ∀ {lines : List (List Char)}, (∀ line ∈ lines, '\n' ∉ line) →
    (lines.flatMap (· ++ ['\n'])).splitOn '\n' = lines ++ [[]]
  | [], _ => List.splitOn_nil '\n'
  | line :: lines, h => by
    obtain ⟨first, later⟩ := List.forall_mem_cons.1 h
    rw [List.flatMap_cons, List.append_assoc, List.singleton_append,
      List.splitOn_append_cons_self_of_not_mem first, splitOn_lines later, List.cons_append]

namespace Command

variable {surroundings : Surroundings} {arguments : Arguments} {input : Markup.Cursor} {survey : Survey}

/-- A reading that is found stands in front of every failure that ends the search. -/
theorem delivered_upToLast : ∀ items : List (Except Failure Reading),
    delivered (Findings.upToLast items) = (Findings.upToLast items).filterMap Except.toOption
  | [] => rfl
  | item :: items => by
    rw [Findings.upToLast]
    cases last : Findings.isLast item with
    | true =>
      obtain failure | reading := item
      · have fatal : failure.endsStream = true := last
        rw [if_pos rfl, delivered, List.takeWhile_cons_of_neg (by rw [isFatal, fatal]; decide)]
        rfl
      · cases last
    | false =>
      have goesOn : isFatal item = false := by
        cases item <;> exact last
      rw [if_neg Bool.false_ne_true, delivered_cons_of_goesOn goesOn, delivered_upToLast items]
      cases item <;> rfl

/-- Between the line feeds of what is written stand the readings. -/
theorem splitOn_join (readings : List Reading) :
    (String.join (readings.map fun reading => String.ofList reading.json ++ "\n")).toList.splitOn '\n' =
      readings.map Reading.json ++ [[]] := by
  have single (reading : Reading) : '\n' ∉ reading.json := fun hm =>
    absurd (reading.oneLine_json _ hm) (by decide)
  rw [← Text.splitOn_lines (List.forall_mem_map.2 fun reading _ => single reading), String.toList_join,
    List.flatMap_map, List.flatMap_map]
  simp only [String.toList_append, String.toList_ofList]
  rfl

theorem eq_of_map_json_eq {readings others : List Reading}
    (h : readings.map Reading.json = others.map Reading.json) : readings = others :=
  List.map_injective_iff.2 (fun _ _ => Reading.eq_of_json_eq) h

/-- Readings are told from their JSON, in which no character is below the blank. So a run that is asked
for readings, with an input that can be opened and an output that can be created, writes what splits at
its line feeds into the JSON of the readings that are found, one for each, with nothing behind the last
line feed; and no other readings split so. -/
theorem splitOn_written :
    (∀ r s : Reading, r.json = s.json → r = s) ∧
    (∀ r : Reading, ∀ c ∈ r.json, 0x20 ≤ c.toNat) ∧
    ∀ (surroundings : Surroundings) (arguments : Arguments) (input : Markup.Cursor) (survey : Survey),
      surroundings.input? arguments = some input →
      (∀ path ∈ arguments.output, surroundings.canCreate path = true) →
      ¬ arguments.Raw → Survey.compile arguments.selector arguments.asked = .ok survey →
      let found := ((survey.withLimits arguments.limits).begin (arguments.read input)).items
      let readings := found.filterMap Except.toOption
      ∃ text, (run surroundings arguments).written = some text ∧
        text.toList.splitOn '\n' = readings.map Reading.json ++ [[]] ∧
        ∀ others : List Reading, text.toList.splitOn '\n' = others.map Reading.json ++ [[]] →
          others = readings := by
  refine ⟨fun _ _ => Reading.eq_of_json_eq, Reading.oneLine_json, ?_⟩
  intro surroundings arguments input survey opens creates asked compiled found readings
  have written := (report_delivers (fun reading => String.ofList reading.json) found).written
  have all : delivered found = readings := by
    have last : found = _ := Findings.items_eq _ _
    dsimp only [readings]
    rw [last]
    exact delivered_upToLast _
  rw [all] at written
  have lines := splitOn_join readings
  refine ⟨_, ?_, lines, fun others same => ?_⟩
  · rw [run_eq opens creates, runOver_asked asked compiled]
    exact written
  · exact eq_of_map_json_eq (List.append_cancel_right (same.symm.trans lines))

/-- A line feed in an attribute and one in a text end no line, and a quote in the text ends no string. -/
theorem splitOn_written_lineFeeds :
    let arguments : Arguments := ⟨"/r/a", some "in", none, true, ["x"], [], .none⟩
    let document := "<r><a x='1&#10;2'>\x22\n\\</a><b/><a/></r>".toUTF8.toList
    let surroundings : Surroundings := ⟨.ofBytes [], fun _ => some (.ofBytes document), fun _ => true⟩
    let first := (Reading.empty.setText "\x22\n\\").setAttribute "x" "1\n2"
    let second := (Reading.empty.setText "").setAttribute "x" ""
    let line := "\x7b\"text\":\"\\\"\\n\\\\\",\"attributes\":\x7b\"x\":\"1\\n2\"\x7d,\"children\":\x7b\x7d\x7d"
    ∃ text, (run surroundings arguments).written = some text ∧
      text.toList.splitOn '\n' = [line.toList, second.json, []] ∧
      (∀ others : List Reading, text.toList.splitOn '\n' = others.map Reading.json ++ [[]] →
        others = [first, second]) ∧
      ∀ other : Reading, other.json = line.toList → other = first := by
  intro arguments document surroundings first second line
  let selector : Selector := ⟨"/r/a", ⟨⟨some "r", none, false⟩, [⟨some "a", none, false⟩]⟩⟩
  let request := Request.empty.askText.askAttribute "x"
  let survey : Survey := ⟨selector, ⟨request, .empty⟩, .none⟩
  have compiled : Survey.compile arguments.selector arguments.asked = .ok survey := by
    rw [Arguments.asked_eq_of_request? (rfl : arguments.request? = some request)]
    exact (rfl : Survey.compile "/r/a" request = .ok survey)
  obtain ⟨told, -, runs⟩ := splitOn_written
  obtain ⟨text, written, lines, only⟩ :=
    runs surroundings arguments _ survey rfl (fun _ _ => rfl) (fun raw => absurd raw.1 (by decide)) compiled
  have found : ((survey.withLimits arguments.limits).begin (arguments.read (.ofBytes document))).items.filterMap
      Except.toOption = [first, second] :=
    eq_of_map_json_eq (by decide +kernel)
  have same : first.json = line.toList := by decide
  rw [found] at lines only
  exact ⟨text, written, same ▸ lines, only, fun other h => told other first (h.trans same.symm)⟩

end Command

end SubtreeHarvest

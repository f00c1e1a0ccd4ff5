/-
What a survey finds. The findings are the items of the extraction in order, each fragment read by the
plan and each failure kept, up to the first item that ends them. A fragment that cannot be read takes
up one item and changes no other; behind the last item and behind the end every call finds nothing
and leaves everything as it is.

Over a plain forest, with a request that asks for no children, every captured element is found, and
its reading says what its events say.
-/
import SubtreeHarvest.Proofs.Extract.Captured
import SubtreeHarvest.Proofs.Extract.Calls
import SubtreeHarvest.Proofs.Survey.Reading
import SubtreeHarvest.Survey

namespace SubtreeHarvest

/-- What a plan makes of an item of an extraction: it reads a fragment and keeps a failure. -/
def Plan.readItem (plan : Plan) : Except Failure Fragment → Except Failure Reading
  | .ok fragment => plan.read fragment.text
  | .error failure => .error failure

namespace Findings

variable {σ : Type} [EventStream σ] {found later : Findings σ} {x y : Extraction σ} {plan : Plan}
  {item : Except Failure Reading}

/-- The items with all those cut off that stand behind the first one that is the last. -/
def upToLast : List (Except Failure Reading) → List (Except Failure Reading)
  | [] => []
  | item :: items => if isLast item then [item] else item :: upToLast items

theorem upToLast_append : ∀ {front : List (Except Failure Reading)}
    (behind : List (Except Failure Reading)), (∀ item ∈ front, isLast item = false) →
      upToLast (front ++ behind) = front ++ upToLast behind
  | [], _, _ => rfl
  | item :: front, behind, h => by
    obtain ⟨goesOn, h⟩ := List.forall_mem_cons.1 h
    rw [List.cons_append, upToLast, goesOn, if_neg Bool.false_ne_true, upToLast_append behind h,
      List.cons_append]

theorem upToLast_of_goesOn {items : List (Except Failure Reading)}
    (h : ∀ item ∈ items, isLast item = false) :
    upToLast items = items := by
  have all := upToLast_append [] h
  rwa [List.append_nil, upToLast, List.append_nil] at all

/-- A fragment that cannot be read is no last item. -/
theorem isLast_unreadable {failure : Failure} (h : failure.kind = .unreadableFragment) :
    isLast (.error failure) = false := by
  rw [isLast, Failure.endsStream, h]
  rfl

/-! ## The next item -/

theorem next_finished (h : found.finished = true) : found.next = (none, found) := by
  rw [next, if_pos h]

theorem next_none (h : x.next = (none, y)) : next ⟨x, plan, false⟩ = (none, ⟨y, plan, false⟩) := by
  rw [next, if_neg Bool.false_ne_true, h]

theorem next_error {failure : Failure} (h : x.next = (some (.error failure), y)) :
    next ⟨x, plan, false⟩ = (some (.error failure), ⟨y, plan, true⟩) := by
  rw [next, if_neg Bool.false_ne_true, h]

theorem next_ok {fragment : Fragment} (h : x.next = (some (.ok fragment), y)) :
    next ⟨x, plan, false⟩ =
      (some (plan.read fragment.text), ⟨y, plan, isLast (plan.read fragment.text)⟩) := by
  rw [next, if_neg Bool.false_ne_true, h]

/-! ## The items -/

theorem items_of_some (h : found.next = (some item, later)) : found.items = item :: later.items := by
  rw [items]
  split <;> simp_all

theorem items_of_none (h : found.next = (none, later)) : found.items = [] := by
  rw [items]
  split <;> simp_all

theorem items_finished (h : found.finished = true) : found.items = [] :=
  items_of_none (next_finished h)

/-- The findings are the items of the extraction, read by the plan, up to the last. -/
theorem items_eq (plan : Plan) (x : Extraction σ) :
    items ⟨x, plan, false⟩ = upToLast (x.items.map plan.readItem) := by
  rcases hn : x.next with ⟨_ | failure | fragment, y⟩
  · rw [items_of_none (next_none hn), Extraction.items_of_none hn]
    rfl
  · rw [items_of_some (next_error hn), items_finished rfl, Extraction.items_of_some hn,
      Extraction.items_finished (Extraction.finished_of_failure hn), List.map_cons, Plan.readItem, upToLast]
    split <;> rfl
  · rw [items_of_some (next_ok hn), Extraction.items_of_some hn, List.map_cons, Plan.readItem, upToLast]
    split
    · rename_i last
      rw [last, items_finished rfl]
    · rename_i goesOn
      rw [Bool.eq_false_iff.2 goesOn, items_eq plan y]
termination_by x.bound
decreasing_by exact Extraction.bound_next hn

/-! ## One call after the other -/

/-- The findings behind the first `k` calls. -/
def after (found : Findings σ) : Nat → Findings σ
  | 0 => found
  | k + 1 => found.next.2.after k

theorem after_add (found : Findings σ) : ∀ m n, found.after (m + n) = (found.after m).after n
  | 0, n => by rw [Nat.zero_add, after]
  | m + 1, n => by rw [Nat.add_right_comm, after, after, after_add found.next.2 m n]

/-- Behind the end nothing changes any more. -/
theorem next_of_none (h : found.next = (none, later)) : later.next = (none, later) := by
  obtain ⟨x, plan, finished⟩ := found
  cases finished with
  | true =>
    rw [next_finished rfl] at h
    cases h
    exact next_finished rfl
  | false =>
    rcases hn : x.next with ⟨_ | failure | fragment, y⟩
    · rw [next_none hn] at h
      cases h
      exact next_none (Extraction.next_finished (Extraction.finished_of_next hn))
    · rw [next_error hn] at h
      cases h
    · rw [next_ok hn] at h
      cases h

/-- Behind the last item nothing changes any more. -/
theorem next_of_last (h : found.next = (some item, later)) (hl : isLast item = true) :
    later.next = (none, later) := by
  obtain ⟨x, plan, finished⟩ := found
  cases finished with
  | true =>
    rw [next_finished rfl] at h
    cases h
  | false =>
    rcases hn : x.next with ⟨_ | failure | fragment, y⟩
    · rw [next_none hn] at h
      cases h
    · rw [next_error hn] at h
      cases h
      exact next_finished rfl
    · rw [next_ok hn] at h
      cases h
      exact next_finished hl

theorem after_of_next (h : found.next = (none, found)) : ∀ k, found.after k = found
  | 0 => rfl
  | k + 1 => by
    rw [after, h]
    exact after_of_next h k

/-- The calls answer the items in order, and behind the last of them no call answers any. -/
theorem next_after (found : Findings σ) (k : Nat) : (found.after k).next.1 = found.items[k]? := by
  induction k generalizing found with
  | zero =>
    rcases hn : found.next with ⟨_ | item, later⟩
    · rw [items_of_none hn, after, hn]; rfl
    · rw [items_of_some hn, after, hn]; rfl
  | succ k ih =>
    rw [after, ih]
    rcases hn : found.next with ⟨_ | item, later⟩
    · rw [items_of_none hn, items_of_none (next_of_none hn)]; rfl
    · rw [items_of_some hn]; rfl

/-- Once a call has answered the end or the last item, every later call answers the end and leaves
the source as it is. -/
theorem next_behind {k : Nat} (h : ∀ item ∈ (found.after k).next.1, isLast item = true) {j : Nat}
    (hj : k < j) : (found.after j).next = (none, found.after (k + 1)) := by
  have behind : found.after (k + 1) = (found.after k).next.2 := after_add found k 1
  have still : (found.after (k + 1)).next = (none, found.after (k + 1)) := by
    rw [behind]
    rcases hn : (found.after k).next with ⟨_ | item, later⟩
    · exact next_of_none hn
    · rw [hn] at h
      exact next_of_last hn (h item rfl)
  obtain ⟨n, rfl⟩ := Nat.exists_eq_add_of_lt hj
  rw [Nat.add_right_comm, after_add, after_of_next still, still]

end Findings

namespace Survey

open Findings

/-- What a survey is made of was compiled, the selector from the expression and the plan from the
request. -/
theorem compiled_of_compile {expression : String} {request : Request} {survey : Survey}
    (h : compile expression request = .ok survey) :
    Selector.compile expression = .ok survey.selector ∧ Plan.compile request = .ok survey.plan := by
  rw [compile] at h
  cases hs : Selector.compile expression with
  | error failure => rw [hs] at h; cases h
  | ok selector =>
    cases hp : Plan.compile request with
    | error failure => rw [hs, hp] at h; cases h
    | ok plan =>
      rw [hs, hp] at h
      cases h
      exact ⟨rfl, rfl⟩

/-- Over a forest and without limits, the plan reads the fragments of the captured elements. -/
theorem map_readItem_forest (selector : Selector) (plan : Plan) (forest : Forest) :
    (selector.extract .none (Feed.ofEvents forest.events)).map plan.readItem =
      (forest.captured selector.chain).map fun e => plan.read e.fragment.text := by
  rw [Selector.items_forest, List.map_map]
  rfl

/-- Under whatever limits and over whatever source, a survey that compiles finds the items of the
extraction, in order, with each fragment read by the plan and each failure kept, up to the first
failure that ends them. Call by call it answers these items. A fragment that cannot be read takes up
its own item: what is in front of it and behind it is found as without it. Behind the last item, and
behind the end, every call answers the end and changes nothing, the source included. -/
theorem items_extract {expression : String} {request : Request} {survey : Survey}
    (h : compile expression request = .ok survey) (limits : Limits) {σ : Type} [EventStream σ]
    (source : σ) :
    let found := (survey.withLimits limits).begin source
    let items := (survey.selector.extract limits source).map survey.plan.readItem
    Selector.compile expression = .ok survey.selector ∧ Plan.compile request = .ok survey.plan ∧
      found.items = upToLast items ∧
      (∀ k, (found.after k).next.1 = (upToLast items)[k]?) ∧
      (∀ front failure behind, items = front ++ .error failure :: behind →
        failure.kind = .unreadableFragment → (∀ item ∈ front, isLast item = false) →
          found.items = front ++ .error failure :: upToLast behind) ∧
      ∀ k, (∀ item ∈ (found.after k).next.1, isLast item = true) →
        ∀ j, k < j → (found.after j).next = (none, found.after (k + 1)) := by
  intro found items
  obtain ⟨selector, plan⟩ := compiled_of_compile h
  have all : found.items = upToLast items := items_eq survey.plan _
  refine ⟨selector, plan, all, fun k => ?_, fun front failure behind parted kind goesOn => ?_,
    fun k hk j hj => next_behind hk hj⟩
  · rw [next_after, all]
  · rw [all, parted, upToLast_append _ goesOn, upToLast, isLast_unreadable kind,
      if_neg Bool.false_ne_true]

/-- An element whose name begins with a digit cannot be read again. It takes up the second item, and
the elements around it are found; behind the fourth call, which answers the end, nothing changes. -/
theorem items_extract_unreadable :
    let forest : Forest := .element ⟨"r", []⟩ (.element ⟨"a", [⟨"x", "v"⟩]⟩ (.text "t" .empty)
      (.element ⟨"1", []⟩ .empty (.element ⟨"b", []⟩ .empty .empty))) .empty
    let failure : Failure :=
      .saying .unreadableFragment ("cannot reparse fragment: " ++ Failure.unexplained)
    ∃ survey, compile "/r/*" (Request.empty.askText.askAttribute "x") = .ok survey ∧
      let found := (survey.withLimits .none).begin (Feed.ofEvents forest.events)
      found.items = [.ok ((Reading.empty.setText "t").setAttribute "x" "v"), .error failure,
        .ok ((Reading.empty.setText "").setAttribute "x" "")] ∧
      ∀ j, 3 < j → (found.after j).next = (none, found.after 4) := by
  intro forest failure
  let selector : Selector := ⟨"/r/*", ⟨⟨some "r", none, false⟩, [⟨none, none, true⟩]⟩⟩
  let plan : Plan := ⟨Request.empty.askText.askAttribute "x", .empty⟩
  let first : Element := ⟨1, [⟨"r", []⟩], ⟨"a", [⟨"x", "v"⟩]⟩, .text "t" .empty⟩
  let second : Element := ⟨4, [⟨"r", []⟩], ⟨"1", []⟩, .empty⟩
  let third : Element := ⟨6, [⟨"r", []⟩], ⟨"b", []⟩, .empty⟩
  have captured : forest.captured selector.chain = [first, second, third] := by decide
  have readFirst : plan.read first.fragment.text = .ok ((Reading.empty.setText "t").setAttribute "x" "v") :=
    Plan.read_plain rfl (by decide +kernel) trivial
  have written : second.fragment.text.toList = '<' :: "1></1>".toList := by decide +kernel
  have unread : plan.read second.fragment.text = .error failure :=
    Plan.read_of_token?_none plan written rfl rfl
  have readThird : plan.read third.fragment.text = .ok ((Reading.empty.setText "").setAttribute "x" "") :=
    Plan.read_plain rfl (by decide +kernel) trivial
  have items : (selector.extract .none (Feed.ofEvents forest.events)).map plan.readItem =
      [.ok ((Reading.empty.setText "t").setAttribute "x" "v")] ++
        .error failure :: [.ok ((Reading.empty.setText "").setAttribute "x" "")] := by
    rw [map_readItem_forest, captured, List.map_cons, List.map_cons, List.map_singleton, readFirst, unread,
      readThird]
    rfl
  have compiled : compile "/r/*" (Request.empty.askText.askAttribute "x") =
    .ok ⟨selector, plan, .none⟩ := rfl
  obtain ⟨-, -, -, calls, unreadable, still⟩ :=
    items_extract compiled .none (Feed.ofEvents forest.events)
  refine ⟨⟨selector, plan, .none⟩, compiled, unreadable _ failure _ items rfl ?_, still 3 ?_⟩
  · rw [List.forall_mem_singleton]
    rfl
  · rw [calls 3, items]
    exact fun item hm => nomatch hm

/-! ## Plain documents -/

/-- A plan that can read every captured element of a forest finds the readings, in document order, and
no failure. -/
theorem items_forest_of_read {selector : Selector} {plan : Plan} {forest : Forest}
    {reading : Element → Reading}
    (h : ∀ e ∈ forest.captured selector.chain, plan.read e.fragment.text = .ok (reading e)) :
    (begin ⟨selector, plan, .none⟩ (Feed.ofEvents forest.events)).items =
      (forest.captured selector.chain).map fun e => .ok (reading e) := by
  have goesOn : ∀ item ∈ (forest.captured selector.chain).map (fun e => Except.ok (reading e)),
      isLast item = false := by
    intro item hm
    obtain ⟨e, -, rfl⟩ := List.mem_map.1 hm
    rfl
  have all := items_eq plan (.begin selector .none (Feed.ofEvents forest.events))
  rw [← Selector.extract, map_readItem_forest, List.map_congr_left h, upToLast_of_goesOn goesOn] at all
  exact all

/-- In a plain forest a survey that asks for the text or for attributes, but for no children, finds
one reading for each captured element, in document order, and no failure: the trimmed contents of
all that the element holds, joined, and the values of its own attributes. -/
theorem items_plain {expression : String} {selector : Selector}
    (hs : Selector.compile expression = .ok selector) (wantsText : Bool) (names : Names)
    {forest : Forest} (plain : forest.Plain) :
    ∃ plan, compile expression ⟨wantsText, names, .empty⟩ = .ok ⟨selector, plan, .none⟩ ∧
      (begin ⟨selector, plan, .none⟩ (Feed.ofEvents forest.events)).items =
        (forest.captured selector.chain).map fun e => .ok {
          text := if wantsText then some e.inside.contents else none
          values := .ofNames names e.tag.value
          under := .empty } := by
  have compiled : Plan.compile ⟨wantsText, names, .empty⟩ = .ok ⟨⟨wantsText, names, .empty⟩, .empty⟩ :=
    Plan.compile_childless rfl
  refine ⟨⟨⟨wantsText, names, .empty⟩, .empty⟩, by rw [compile, hs, compiled]; rfl, ?_⟩
  refine items_forest_of_read fun e he => ?_
  obtain ⟨ht, hi⟩ := plain.of_mem (List.mem_filter.1 he).1
  exact Plan.read_plain rfl ht hi

/-- Quotes, references, brackets and sections come back as they were written into the document, and
nested elements say what they hold; an attribute that is missing is empty. -/
theorem items_plain_mixed :
    let inside : Forest := .text " 1 " (.text "\"&lt;" (.cdata " <&> ]] " (.element ⟨"b", [⟨"x", "1"⟩]⟩
      (.text "é'" .empty) (.text ">\n" .empty))))
    let forest : Forest := .element ⟨"r", []⟩ (.element ⟨"a", [⟨"y", "&amp;"⟩, ⟨"x", "'<é>\""⟩]⟩ inside
      (.element ⟨"_c.-", []⟩ .empty .empty)) .empty
    forest.Plain ∧ ∃ survey,
      compile "/r/*" (Request.empty.askText.askAttributes ["x", "z"]) = .ok survey ∧
        (survey.begin (Feed.ofEvents forest.events)).items =
          [.ok (((Reading.empty.setText "1\"&lt;<&> ]]é'>").setAttribute "x" "'<é>\"").setAttribute "z" ""),
            .ok (((Reading.empty.setText "").setAttribute "x" "").setAttribute "z" "")] := by
  intro inside forest
  have plain : forest.Plain := by decide +kernel
  have hs : Selector.compile "/r/*" =
    .ok ⟨"/r/*", ⟨⟨some "r", none, false⟩, [⟨none, none, true⟩]⟩⟩ := rfl
  obtain ⟨plan, compiled, found⟩ := items_plain hs true (Request.empty.askAttributes ["x", "z"]).names plain
  refine ⟨plain, _, compiled, found.trans ?_⟩
  have captured : forest.captured ⟨⟨some "r", none, false⟩, [⟨none, none, true⟩]⟩ =
      [⟨1, [⟨"r", []⟩], ⟨"a", [⟨"y", "&amp;"⟩, ⟨"x", "'<é>\""⟩]⟩, inside⟩,
        ⟨10, [⟨"r", []⟩], ⟨"_c.-", []⟩, .empty⟩] := by decide
  have text : inside.contents = "1\"&lt;<&> ]]é'>" := by decide +kernel
  rw [captured, List.map_cons, text]
  rfl

end Survey

end SubtreeHarvest

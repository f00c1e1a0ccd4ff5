/-
What one event comes to, said as a relation with one rule for each thing a matcher can do. The
matcher does what one of the rules says, so a fact about all it can do is a fact about each rule.
-/
import SubtreeHarvest.Proofs.Extract.Enclosed

namespace SubtreeHarvest

namespace Matcher

/-! ## Searching -/

variable {limits : Limits} {chain : Chain} {below : List Chain} {tag : Tag}

theorem consume_capture (h : chain.offer tag = .capture) :
    consume limits ⟨chain :: below, .searching⟩ (.startTag tag) =
      .goesOn ⟨chain :: below, .capturing 0 (Event.startTag tag).written⟩ := by
  simp [consume, enter, h]

theorem consume_skip (h : chain.offer tag = .skip) :
    consume limits ⟨chain :: below, .searching⟩ (.startTag tag) =
      .goesOn ⟨chain :: below, .skipping 0⟩ := by
  simp [consume, enter, h]

theorem consume_descend {next : Chain} (h : chain.offer tag = .descend next)
    (hd : limits.maxDepth = 0 ∨ below.length < limits.maxDepth) :
    consume limits ⟨chain :: below, .searching⟩ (.startTag tag) =
      .goesOn ⟨next :: chain :: below, .searching⟩ := by
  have shallow : ¬ (0 < limits.maxDepth ∧ limits.maxDepth ≤ below.length) := by omega
  simp [consume, enter, h, depth, shallow]

theorem consume_tooDeep {next : Chain} (h : chain.offer tag = .descend next)
    (hd : 0 < limits.maxDepth) (hb : limits.maxDepth ≤ below.length) :
    consume limits ⟨chain :: below, .searching⟩ (.startTag tag) =
      .exceeds (.depthExceeded limits.maxDepth) := by
  simp [consume, enter, h, depth, hd, hb]

theorem consume_leave {inner : Chain} {name : String} :
    consume limits ⟨inner :: chain :: below, .searching⟩ (.endTag name) =
      .goesOn ⟨chain :: below, .searching⟩ := rfl

/-! ## Every rule -/

/-- What an event comes to, rule by rule. -/
inductive Consumes (limits : Limits) : Matcher → Event → Outcome → Prop
  | outside {tag : Tag} : Consumes limits ⟨[], .searching⟩ (.startTag tag) (.leaves ⟨[], .searching⟩)
  | captures {chain : Chain} {below : List Chain} {tag : Tag} : chain.offer tag = .capture →
      Consumes limits ⟨chain :: below, .searching⟩ (.startTag tag)
        (.goesOn ⟨chain :: below, .capturing 0 (Event.startTag tag).written⟩)
  | skips {chain : Chain} {below : List Chain} {tag : Tag} : chain.offer tag = .skip →
      Consumes limits ⟨chain :: below, .searching⟩ (.startTag tag)
        (.goesOn ⟨chain :: below, .skipping 0⟩)
  | descends {chain next : Chain} {below : List Chain} {tag : Tag} :
      chain.offer tag = .descend next → limits.maxDepth = 0 ∨ below.length < limits.maxDepth →
      Consumes limits ⟨chain :: below, .searching⟩ (.startTag tag)
        (.goesOn ⟨next :: chain :: below, .searching⟩)
  | tooDeep {chain next : Chain} {below : List Chain} {tag : Tag} :
      chain.offer tag = .descend next → 0 < limits.maxDepth → limits.maxDepth ≤ below.length →
      Consumes limits ⟨chain :: below, .searching⟩ (.startTag tag)
        (.exceeds (.depthExceeded limits.maxDepth))
  | leaves {frames : List Chain} {name : String} : frames.length ≤ 1 →
      Consumes limits ⟨frames, .searching⟩ (.endTag name) (.leaves ⟨[], .searching⟩)
  | comesUp {inner chain : Chain} {below : List Chain} {name : String} :
      Consumes limits ⟨inner :: chain :: below, .searching⟩ (.endTag name)
        (.goesOn ⟨chain :: below, .searching⟩)
  | passesText {frames : List Chain} {content : String} :
      Consumes limits ⟨frames, .searching⟩ (.text content) (.goesOn ⟨frames, .searching⟩)
  | passesCdata {frames : List Chain} {content : String} :
      Consumes limits ⟨frames, .searching⟩ (.cdata content) (.goesOn ⟨frames, .searching⟩)
  | passesOver {frames : List Chain} {depth behind : Nat} {event : Event} :
      Event.depthBehind depth [event] = some behind →
      Consumes limits ⟨frames, .skipping depth⟩ event (.goesOn ⟨frames, .skipping behind⟩)
  | skipped {frames : List Chain} {name : String} :
      Consumes limits ⟨frames, .skipping 0⟩ (.endTag name) (.goesOn ⟨frames, .searching⟩)
  | writes {frames : List Chain} {depth behind : Nat} {written : String} {event : Event} :
      Event.depthBehind depth [event] = some behind → limits.Admits (written ++ event.written) →
      Consumes limits ⟨frames, .capturing depth written⟩ event
        (.goesOn ⟨frames, .capturing behind (written ++ event.written)⟩)
  | tooLarge {frames : List Chain} {depth behind : Nat} {written : String} {event : Event} :
      Event.depthBehind depth [event] = some behind → ¬ limits.Admits (written ++ event.written) →
      Consumes limits ⟨frames, .capturing depth written⟩ event
        (.exceeds (.sizeExceeded limits.maxSize))
  | closes {frames : List Chain} {written : String} {name : String} :
      Consumes limits ⟨frames, .capturing 0 written⟩ (.endTag name)
        (.fragment ⟨written ++ (Event.endTag name).written⟩ ⟨frames, .searching⟩)

/-- A matcher that searches does what one of the rules says. -/
theorem consumes_searching : ∀ (frames : List Chain) (event : Event),
    Consumes limits ⟨frames, .searching⟩ event (consume limits ⟨frames, .searching⟩ event)
  | [], .startTag _ => .outside
  | chain :: below, .startTag tag => by
    cases ho : chain.offer tag with
    | capture => rw [consume_capture ho]; exact .captures ho
    | skip => rw [consume_skip ho]; exact .skips ho
    | descend next =>
      by_cases hd : limits.maxDepth = 0 ∨ below.length < limits.maxDepth
      · rw [consume_descend ho hd]
        exact .descends ho hd
      · rw [not_or] at hd
        have deep : limits.maxDepth ≤ below.length := Nat.not_lt.1 hd.2
        rw [consume_tooDeep ho (Nat.pos_of_ne_zero hd.1) deep]
        exact .tooDeep ho (Nat.pos_of_ne_zero hd.1) deep
  | [], .endTag _ => .leaves (Nat.zero_le 1)
  | [_], .endTag _ => .leaves (Nat.le_refl 1)
  | _ :: _ :: _, .endTag _ => .comesUp
  | _, .text _ => .passesText
  | _, .cdata _ => .passesCdata

theorem consumes (m : Matcher) (event : Event) :
    Consumes limits m event (m.consume limits event) := by
  obtain ⟨frames, activity⟩ := m
  cases activity with
  | searching => exact consumes_searching frames event
  | skipping depth =>
    cases hd : Event.depthBehind depth [event] with
    | none =>
      obtain ⟨rfl, name, rfl⟩ := Event.depthBehind_eq_none hd
      exact .skipped
    | some behind =>
      rw [consume_skipping hd]
      exact .passesOver hd
  | capturing depth written =>
    cases hd : Event.depthBehind depth [event] with
    | none =>
      obtain ⟨rfl, name, rfl⟩ := Event.depthBehind_eq_none hd
      exact .closes
    | some behind =>
      rw [consume_capturing hd]
      by_cases hw : limits.Admits (written ++ event.written)
      · rw [grow_eq_goesOn hw]
        exact .writes hd hw
      · rw [grow_eq_exceeds hw]
        exact .tooLarge hd hw

variable {m m₁ : Matcher} {event : Event}

/-- A rule says all there is to an event. -/
theorem Consumes.consume_eq {outcome : Outcome} (h : Consumes limits m event outcome) :
    m.consume limits event = outcome := by
  cases h with
  | captures ho => exact consume_capture ho
  | skips ho => exact consume_skip ho
  | descends ho hd => exact consume_descend ho hd
  | tooDeep ho hd hb => exact consume_tooDeep ho hd hb
  | @leaves frames name hl =>
    match frames with
    | [] => rfl
    | [_] => rfl
    | _ :: _ :: _ => simp at hl
  | passesOver hd => exact consume_skipping hd _
  | writes hd hw => rw [consume_capturing hd, grow_eq_goesOn hw]
  | tooLarge hd hw => rw [consume_capturing hd, grow_eq_exceeds hw]
  | _ => rfl

/-- How a matcher comes to be capturing: it enters an element, or writes more of one. -/
theorem capturing_of_consume {depth : Nat} {written : String}
    (h : m.consume limits event = .goesOn m₁) (ha : m₁.activity = .capturing depth written) :
    (∃ tag chain below, m = ⟨chain :: below, .searching⟩ ∧ event = .startTag tag ∧
      chain.offer tag = .capture ∧ depth = 0 ∧ written = event.written) ∨
    ∃ d w, m.activity = .capturing d w ∧ Event.depthBehind d [event] = some depth ∧
      written = w ++ event.written ∧ limits.Admits written := by
  have rule : Consumes limits m event (.goesOn m₁) := h ▸ consumes m event
  cases rule with
  | captures ho => cases ha; exact .inl ⟨_, _, _, rfl, rfl, ho, rfl, rfl⟩
  | writes hd hw => cases ha; exact .inr ⟨_, _, rfl, hd, rfl, hw⟩
  | _ => cases ha

/-- A fragment is what a capturing matcher has written and the end tag of the captured element. -/
theorem consume_eq_fragment {fragment : Fragment} (h : m.consume limits event = .fragment fragment m₁) :
    m₁.activity = .searching ∧ ∃ written name, m.activity = .capturing 0 written ∧
      event = .endTag name ∧ fragment = ⟨written ++ (Event.endTag name).written⟩ := by
  have rule : Consumes limits m event (.fragment fragment m₁) := h ▸ consumes m event
  cases rule with
  | closes => exact ⟨rfl, _, _, rfl, rfl, rfl⟩

end Matcher

end SubtreeHarvest

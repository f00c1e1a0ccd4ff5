/-
Readings told from their JSON. What is written of a value marks its own end: with anything behind it, it
is the text of no other value. This holds of the characters inside a string, because no escape begins
another and no character that stands for itself begins one, and it is handed on to whatever is written
with a mark at its end that none of its parts begins with: strings, arrays, objects, and readings
themselves, however deep. No text has a character below the blank, so it stands on one line.
-/
import Mathlib.Data.List.Pairwise
import SubtreeHarvest.Proofs.Table
import SubtreeHarvest.Reading

namespace SubtreeHarvest.Reading

variable {c close mark : Char} {α β : Type}

/-! ## Texts that mark their ends -/

/-- What is written of the value, with anything behind it, is written of no other. -/
def Delimits (write : α → List Char) (a : α) : Prop :=
  ∀ (b : α) (rest rest' : List Char), write a ++ rest = write b ++ rest' → a = b ∧ rest = rest'

/-- Nothing that is written begins with the mark. -/
def Avoids (mark : Char) (write : α → List Char) : Prop :=
  ∀ (a : α) (rest rest' : List Char), write a ++ rest ≠ mark :: rest'

theorem avoids_cons (h : c ≠ mark) (write : α → List Char) : Avoids mark fun a => c :: write a :=
  fun _ _ _ same => h (List.cons.inj same).1

/-- Where no text of a value begins one of another, every text marks its end. -/
theorem delimits_of_prefix {write : α → List Char} (h : ∀ a b, write a <+: write b → a = b) (a : α) :
    Delimits write a := by
  intro b rest rest' same
  have first : a = b := by
    rcases List.prefix_or_prefix_of_prefix (List.prefix_append (write a) rest)
      (same ▸ List.prefix_append (write b) rest') with begins | begins
    · exact h a b begins
    · exact (h b a begins).symm
  subst first
  exact ⟨rfl, List.append_cancel_left same⟩

theorem Delimits.append {write : α → List Char} {a : α} (front : List Char) (h : Delimits write a) :
    Delimits (fun a => front ++ write a) a := by
  intro b rest rest' same
  simp only [List.append_assoc, List.append_cancel_left_eq] at same
  exact h b rest rest' same

/-- Two values with a mark between them. -/
theorem Delimits.pair {write : α → List Char} {write' : β → List Char} {a : α} {b : β} (mark : Char)
    (first : Delimits write a) (second : Delimits write' b) :
    Delimits (fun pair : α × β => write pair.1 ++ mark :: write' pair.2) (a, b) := by
  rintro ⟨a', b'⟩ rest rest' same
  simp only [List.append_assoc] at same
  obtain ⟨rfl, behind⟩ := first _ _ _ same
  obtain ⟨rfl, ends⟩ := second _ _ _ (List.cons.inj behind).2
  exact ⟨rfl, ends⟩

/-- Values in sequence up to a mark that none of them begins with: nothing but the mark, or a first value
and what is written of the later ones. -/
theorem delimits_sequence {write : α → List Char} {sequence others : List α → List Char}
    (avoids : Avoids close write) (empty : sequence [] = [close])
    (first : ∀ a as, sequence (a :: as) = write a ++ others as) : ∀ {as : List α},
      (∀ a ∈ as, Delimits write a) → (∀ a later, as = a :: later → Delimits others later) →
        Delimits sequence as
  | [], _, _, [], rest, rest', same => by
    rw [empty] at same
    exact ⟨rfl, (List.cons.inj same).2⟩
  | [], _, _, b :: bs, rest, rest', same => by
    rw [empty, first, List.append_assoc] at same
    exact absurd same.symm (avoids b _ rest)
  | a :: as, _, _, [], rest, rest', same => by
    rw [empty, first, List.append_assoc] at same
    exact absurd same (avoids a _ rest')
  | a :: as, each, later, b :: bs, rest, rest', same => by
    rw [first, first, List.append_assoc, List.append_assoc] at same
    obtain ⟨rfl, behind⟩ := each a List.mem_cons_self _ _ _ same
    obtain ⟨rfl, ends⟩ := later a as rfl _ _ _ behind
    exact ⟨rfl, ends⟩

/-- One value behind the other, and the mark. -/
theorem delimits_flatMap {write : α → List Char} (avoids : Avoids close write) : ∀ {as : List α},
    (∀ a ∈ as, Delimits write a) → Delimits (fun as => as.flatMap write ++ [close]) as := by
  have first (a : α) (as : List α) :
      (a :: as).flatMap write ++ [close] = write a ++ (as.flatMap write ++ [close]) := by
    rw [List.flatMap_cons, List.append_assoc]
  intro as each
  induction as with
  | nil => exact delimits_sequence avoids rfl first each nofun
  | cons a as ih =>
    refine delimits_sequence avoids rfl first each fun _ later parted => ?_
    cases parted
    exact ih (List.forall_mem_cons.1 each).2

theorem intercalate_comma_cons (part : List Char) : ∀ parts : List (List Char),
    [','].intercalate (part :: parts) = part ++ parts.flatMap (',' :: ·)
  | [] => by rw [List.intercalate_singleton, List.flatMap_nil, List.append_nil]
  | next :: parts => by
    rw [List.intercalate_cons_cons, intercalate_comma_cons next, List.flatMap_cons, List.append_assoc]
    rfl

/-- Values with a comma between each two, and the mark. -/
theorem delimits_intercalate {write : α → List Char} (avoids : Avoids close write) (h : close ≠ ',')
    {as : List α} (each : ∀ a ∈ as, Delimits write a) :
    Delimits (fun as => [','].intercalate (as.map write) ++ [close]) as := by
  have first (a : α) (as : List α) : [','].intercalate ((a :: as).map write) ++ [close] =
      write a ++ (as.flatMap (fun a => ',' :: write a) ++ [close]) := by
    rw [List.map_cons, intercalate_comma_cons, List.flatMap_map, List.append_assoc]
  refine delimits_sequence avoids rfl first each fun _ later parted => ?_
  exact delimits_flatMap (avoids_cons h.symm write) fun a hm =>
    (each a (parted ▸ List.mem_cons_of_mem _ hm)).append [',']

/-! ## Strings -/

/-- The characters that are written with an escape. -/
def escaped : List Char :=
  '\x22' :: '\\' :: (List.range 0x20).map Char.ofNat

theorem jsonChar_of_not_mem (h : c ∉ escaped) : jsonChar c = [c] ∧ 0x20 ≤ c.toNat := by
  have above : 0x20 ≤ c.toNat := by
    refine Nat.le_of_not_lt fun below => h ?_
    have : c ∈ (List.range 0x20).map Char.ofNat :=
      List.mem_map.2 ⟨c.toNat, List.mem_range.2 below, Char.ofNat_toNat c⟩
    exact List.mem_cons_of_mem _ (List.mem_cons_of_mem _ this)
  have other {d : Char} (hd : d ∈ escaped) : c ≠ d := fun same => h (same ▸ hd)
  refine ⟨?_, above⟩
  have control : ¬ c.toNat < 0x20 := Nat.not_lt.2 above
  have digit : ¬ c.toNat < 0x10 := fun below => control (Nat.lt_trans below (by decide))
  rw [jsonChar]
  simp [other (show '\x22' ∈ escaped by decide), other (show '\\' ∈ escaped by decide),
    other (show '\x08' ∈ escaped by decide), other (show '\x0c' ∈ escaped by decide),
    other (show '\n' ∈ escaped by decide), other (show '\r' ∈ escaped by decide),
    other (show '\t' ∈ escaped by decide), control, digit]

/-- No escape begins another. -/
theorem pairwise_escapes :
    escaped.Pairwise fun c d => ¬ (jsonChar c <+: jsonChar d ∨ jsonChar d <+: jsonChar c) := by
  decide +kernel

theorem exists_escape (h : c ∈ escaped) : ∃ code, jsonChar c = '\\' :: code ∧ ∀ d ∈ code, 0x20 ≤ d.toNat := by
  have all : escaped.all fun c => (jsonChar c).head? == some '\\' && (jsonChar c).all (0x20 ≤ ·.toNat) := by
    decide +kernel
  obtain ⟨begins, above⟩ := Bool.and_eq_true_iff.1 (List.all_eq_true.1 all c h)
  obtain ⟨code, escape⟩ := List.head?_eq_some_iff.1 (eq_of_beq begins)
  rw [escape, List.all_cons, Bool.and_eq_true, List.all_eq_true] at above
  exact ⟨code, escape, fun d hm => of_decide_eq_true (above.2 d hm)⟩

theorem eq_of_jsonChar_prefix (c d : Char) (h : jsonChar c <+: jsonChar d) : c = d := by
  -- a character that stands for itself is not the escape sign, which every escape begins with
  by_cases hc : c ∈ escaped
  all_goals by_cases hd : d ∈ escaped
  · by_contra other
    have apart : Std.Symm fun c d => ¬ (jsonChar c <+: jsonChar d ∨ jsonChar d <+: jsonChar c) :=
      ⟨fun _ _ apart begins => apart begins.symm⟩
    exact pairwise_escapes.forall hc hd other (.inl h)
  · obtain ⟨code, escape, -⟩ := exists_escape hc
    rw [escape, (jsonChar_of_not_mem hd).1, List.cons_prefix_cons] at h
    exact absurd (h.1 ▸ by decide : d ∈ escaped) hd
  · obtain ⟨code, escape, -⟩ := exists_escape hd
    rw [escape, (jsonChar_of_not_mem hc).1, List.cons_prefix_cons] at h
    exact absurd (h.1 ▸ by decide : c ∈ escaped) hc
  · rw [(jsonChar_of_not_mem hc).1, (jsonChar_of_not_mem hd).1, List.cons_prefix_cons] at h
    exact h.1

theorem avoids_jsonChar : Avoids '\x22' jsonChar := by
  intro c rest rest' same
  by_cases hc : c ∈ escaped
  · obtain ⟨code, escape, -⟩ := exists_escape hc
    rw [escape] at same
    exact absurd (List.cons.inj same).1 (by decide)
  · rw [(jsonChar_of_not_mem hc).1] at same
    exact hc ((List.cons.inj same).1 ▸ by decide)

theorem delimits_jsonString (s : String) : Delimits jsonString s := by
  intro t rest rest' same
  have chars : s.toList = t.toList ∧ rest = rest' :=
    (delimits_flatMap avoids_jsonChar fun c _ => delimits_of_prefix eq_of_jsonChar_prefix c) _ _ _
      (List.cons.inj same).2
  exact ⟨String.ext chars.1, chars.2⟩

/-! ## Arrays and objects -/

/-- A member of an object, its value as it is written. -/
def jsonMember (write : β → List Char) (member : String × β) : List Char :=
  jsonString member.1 ++ ':' :: write member.2

theorem avoids_jsonMember (write : β → List Char) : Avoids '\x7d' (jsonMember write) :=
  fun _ _ _ same => absurd (List.cons.inj same).1 (by decide)

theorem delimits_jsonObject {write : β → List Char} {members : List (String × β)}
    (h : ∀ member ∈ members, Delimits write member.2) :
    Delimits (fun members => jsonObject (members.map fun (name, value) => (name, write value))) members := by
  have written (members : List (String × β)) : jsonObject (members.map fun (name, value) => (name, write value)) =
      '\x7b' :: ([','].intercalate (members.map (jsonMember write)) ++ ['\x7d']) := by
    rw [jsonObject, List.map_map]
    rfl
  simp only [written]
  exact (delimits_intercalate (avoids_jsonMember write) (by decide) fun member hm =>
    (delimits_jsonString member.1).pair ':' (h member hm)).append ['\x7b']

/-! ## Readings -/

variable {r s child : Reading} {selector : String} {readings : List Reading}

theorem eq_of_entries (text : r.text = s.text) (attributes : r.attributes = s.attributes)
    (children : r.children = s.children) : r = s := by
  obtain ⟨_, values, under⟩ := r
  obtain ⟨_, values', under'⟩ := s
  cases text
  cases (Table.eq_of_entries attributes : values = values')
  cases (Table.eq_of_entries children : under = under')
  rfl

theorem sizeOf_child (hs : (selector, readings) ∈ r.children) (hc : child ∈ readings) :
    sizeOf child < sizeOf r := by
  obtain ⟨text, values, under⟩ := r
  have within : sizeOf readings < sizeOf under := Table.sizeOf_lt_of_mem hs
  have among := List.sizeOf_lt_of_mem hc
  simp only [mk.sizeOf_spec]
  omega

/-- Induction along the children of a reading. -/
@[elab_as_elim]
theorem induct {P : Reading → Prop} (step : ∀ r : Reading,
    (∀ selector readings, (selector, readings) ∈ r.children → ∀ child ∈ readings, P child) → P r)
    (r : Reading) : P r :=
  step r fun _ _ _ child _ => induct step child
termination_by r
decreasing_by exact sizeOf_child ‹_› ‹_›

/-- Readings as an array. -/
def jsonArray (readings : List Reading) : List Char :=
  '[' :: [','].intercalate (readings.map json) ++ [']']

theorem jsonItems_eq : ∀ readings : List Reading, jsonItems readings = readings.map json
  | [] => rfl
  | r :: rest => by rw [jsonItems, jsonItems_eq rest, List.map_cons]

theorem jsonMembers_eq : ∀ {names : List String} (row : Row (List Reading) names),
    jsonMembers row = row.entries.map fun (selector, readings) => (selector, jsonArray readings)
  | _, .nil => rfl
  | _, .cons readings rest => by
    rw [jsonMembers, jsonItems_eq, jsonMembers_eq rest]
    rfl

/-- The text with the comma behind it, if there is a text. -/
def jsonText : Option String → List Char
  | some text => jsonString "text" ++ ':' :: jsonString text ++ [',']
  | none => []

/-- What stands between the braces. -/
def jsonFields (r : Reading) : List Char :=
  jsonText r.text ++ jsonString "attributes" ++ ':' ::
    (jsonObject (r.attributes.map fun (name, value) => (name, jsonString value)) ++ ',' ::
      (jsonString "children" ++ [':'] ++
        jsonObject (r.children.map fun (selector, readings) => (selector, jsonArray readings))))

theorem json_eq (r : Reading) : r.json = '\x7b' :: jsonFields r ++ ['\x7d'] := by
  obtain ⟨_ | text, values, under⟩ := r
  all_goals
    have members : jsonMembers under.row = under.entries.map fun (selector, readings) =>
      (selector, jsonArray readings) := jsonMembers_eq under.row
    rw [json, members, jsonFields, attributes, children]
    simp only [jsonObject, jsonText, intercalate_comma_cons, List.flatMap_cons, List.flatMap_nil, List.map_cons,
      List.map_nil, List.cons_append, List.append_assoc, List.nil_append]

/-- The name of the member that comes first tells whether there is a text. -/
theorem delimits_jsonText : ∀ text : Option String,
    Delimits (fun text => jsonText text ++ jsonString "attributes") text := by
  have other (rest rest' : List Char) : jsonString "text" ++ rest ≠ jsonString "attributes" ++ rest' :=
    fun same => absurd (delimits_jsonString _ _ _ _ same).1 (by decide)
  rintro (_ | text) (_ | text') rest rest' same
  all_goals simp only [jsonText, List.append_assoc, List.nil_append] at same
  · exact ⟨rfl, List.append_cancel_left same⟩
  · exact absurd same.symm (other _ _)
  · exact absurd same (other _ _)
  · have behind := (List.cons.inj (List.append_cancel_left same)).2
    obtain ⟨rfl, comma⟩ := delimits_jsonString _ _ _ _ behind
    exact ⟨rfl, List.append_cancel_left (List.append_cancel_left comma)⟩

theorem avoids_json : Avoids ']' json := by
  intro r rest rest' same
  rw [json_eq] at same
  exact absurd (List.cons.inj same).1 (by decide)

/-- What is written of a reading, with anything behind it, is written of no other reading. -/
theorem delimits_json (r : Reading) : Delimits json r := by
  induction r using induct with
  | step r ih =>
  have attributes := delimits_jsonObject fun member (_ : member ∈ r.attributes) =>
    delimits_jsonString member.2
  have children := delimits_jsonObject fun member (hm : member ∈ r.children) =>
    ((delimits_intercalate avoids_json (by decide) (ih _ _ hm)).append ['['] : Delimits jsonArray member.2)
  have members := (delimits_jsonText r.text).pair ':'
    (attributes.pair ',' (children.append (jsonString "children" ++ [':'])))
  -- the fields of both readings are written in the same way, so they are told apart as one value
  intro s rest rest' same
  rw [json_eq, json_eq s, List.append_assoc, List.append_assoc] at same
  obtain ⟨fields, ends⟩ := members (s.text, s.attributes, s.children) _ _ (List.cons.inj same).2
  obtain ⟨text, entries⟩ := Prod.mk.inj fields
  obtain ⟨attributes, children⟩ := Prod.mk.inj entries
  exact ⟨eq_of_entries text attributes children, (List.cons.inj ends).2⟩

/-- Readings are told from their JSON, the order of attributes and children included. -/
theorem eq_of_json_eq (h : r.json = s.json) : r = s :=
  (delimits_json r s [] [] (congrArg (· ++ []) h)).1

/-! ## One line -/

/-- No character is below the blank. -/
def OneLine (text : List Char) : Prop :=
  ∀ c ∈ text, 0x20 ≤ c.toNat

theorem oneLine_nil : OneLine [] :=
  List.forall_mem_nil _

theorem oneLine_cons {text : List Char} : OneLine (c :: text) ↔ 0x20 ≤ c.toNat ∧ OneLine text :=
  List.forall_mem_cons

theorem oneLine_append {text text' : List Char} : OneLine (text ++ text') ↔ OneLine text ∧ OneLine text' :=
  List.forall_mem_append

theorem oneLine_flatMap {write : α → List Char} {as : List α} :
    OneLine (as.flatMap write) ↔ ∀ a ∈ as, OneLine (write a) :=
  List.forall_mem_flatMap

theorem oneLine_jsonChar (c : Char) : OneLine (jsonChar c) := by
  by_cases hc : c ∈ escaped
  · obtain ⟨code, escape, above⟩ := exists_escape hc
    rw [escape]
    exact oneLine_cons.2 ⟨by decide, above⟩
  · obtain ⟨plain, above⟩ := jsonChar_of_not_mem hc
    rw [plain]
    exact oneLine_cons.2 ⟨above, oneLine_nil⟩

theorem oneLine_jsonString (s : String) : OneLine (jsonString s) := by
  rw [jsonString, oneLine_append, oneLine_cons, oneLine_flatMap, oneLine_cons]
  exact ⟨⟨by decide, fun c _ => oneLine_jsonChar c⟩, by decide, oneLine_nil⟩

theorem oneLine_intercalate {parts : List (List Char)} (h : ∀ part ∈ parts, OneLine part) :
    OneLine ([','].intercalate parts) := by
  cases parts with
  | nil => exact oneLine_nil
  | cons part parts =>
    obtain ⟨first, later⟩ := List.forall_mem_cons.1 h
    rw [intercalate_comma_cons, oneLine_append, oneLine_flatMap]
    exact ⟨first, fun part hm => oneLine_cons.2 ⟨by decide, later part hm⟩⟩

theorem oneLine_jsonObject {write : β → List Char} {members : List (String × β)}
    (h : ∀ member ∈ members, OneLine (write member.2)) :
    OneLine (jsonObject (members.map fun (name, value) => (name, write value))) := by
  rw [jsonObject, List.map_map, oneLine_append, oneLine_cons, oneLine_cons]
  refine ⟨⟨by decide, oneLine_intercalate (List.forall_mem_map.2 fun member hm => ?_)⟩, by decide, oneLine_nil⟩
  exact oneLine_append.2 ⟨oneLine_jsonString member.1, oneLine_cons.2 ⟨by decide, h member hm⟩⟩

theorem oneLine_json (r : Reading) : OneLine r.json := by
  induction r using induct with
  | step r ih =>
  have text : OneLine (jsonText r.text) := by
    cases r.text with
    | none => exact oneLine_nil
    | some text =>
      rw [jsonText, oneLine_append, oneLine_append, oneLine_cons, oneLine_cons]
      exact ⟨⟨oneLine_jsonString _, by decide, oneLine_jsonString text⟩, by decide, oneLine_nil⟩
  have attributes := oneLine_jsonObject fun member (_ : member ∈ r.attributes) => oneLine_jsonString member.2
  have children := oneLine_jsonObject fun member (hm : member ∈ r.children) => show OneLine (jsonArray member.2) by
    rw [jsonArray, oneLine_append, oneLine_cons, oneLine_cons]
    exact ⟨⟨by decide, oneLine_intercalate (List.forall_mem_map.2 (ih _ _ hm))⟩, by decide, oneLine_nil⟩
  simp only [json_eq, jsonFields, oneLine_append, oneLine_cons, oneLine_nil, and_true]
  exact ⟨⟨by decide, ⟨text, oneLine_jsonString _⟩, by decide, attributes, by decide,
    ⟨oneLine_jsonString _, by decide⟩, children⟩, by decide⟩

end SubtreeHarvest.Reading

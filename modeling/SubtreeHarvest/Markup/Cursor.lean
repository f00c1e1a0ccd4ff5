/-
The cursor: a source of events over the bytes of a document. It holds the bytes still to come, the
number of bytes behind it, and the names of the elements that are open, which end tags have to
match. Comments, instructions and declarations are passed over; an empty element answers a start
tag and, on the next pull, an end tag. Main fact: every event leaves fewer bytes, or the same bytes
and no end tag waiting, so reading comes to an end.
-/
import SubtreeHarvest.EventStream
import SubtreeHarvest.Markup.Attributes
import SubtreeHarvest.Markup.Construct

namespace SubtreeHarvest.Markup

open Text

/-- What lies behind the last byte of a document. -/
inductive Ending
  /-- Nothing: the document is complete. -/
  | complete
  /-- A failure of the device, met once. -/
  | failing (message : String)
  /-- A failure of a device that never gave a byte, met by every pull. -/
  | dead (message : String)

structure Cursor where
  rest : List UInt8
  ending : Ending
  /-- How many bytes are behind, an order mark not counted. -/
  position : Nat
  /-- The names of the open elements, innermost first. -/
  openNames : List (List UInt8)
  /-- The end tag of an empty element whose start tag was answered last. -/
  queuedEnd : Option String

namespace Cursor

def withoutOrderMark (bytes : List UInt8) : List UInt8 :=
  if Byte.orderMark.isPrefixOf bytes then bytes.drop Byte.orderMark.length else bytes

/-- A cursor at the beginning of a document. -/
def ofBytes (bytes : List UInt8) : Cursor :=
  ⟨withoutOrderMark bytes, .complete, 0, [], none⟩

def ofString (s : String) : Cursor :=
  ofBytes (Utf8.encode s)

/-- A cursor on a device that fails as soon as more than the first `limit` bytes of a document are
asked for, its end included. -/
def failingBehind (limit : Nat) (message : String) (bytes : List UInt8) : Cursor :=
  if bytes.length < limit then ofBytes bytes
  else if limit = 0 then ⟨[], .dead message, 0, [], none⟩
  else { ofBytes (bytes.take limit) with ending := .failing message }

/-! ## One construct -/

/-- What one construct comes to. -/
inductive Step
  | event (event : Event)
  | ignored
  | ended
  | failed (failure : Failure)

/-- The cursor `n` bytes on. -/
def movedBy (r : Cursor) (n : Nat) : Cursor :=
  { r with rest := r.rest.drop n, position := r.position + n }

/-- The cursor `n` bytes on, where the reading ends. -/
def stopped (r : Cursor) (n : Nat) : Cursor :=
  { r with rest := [], ending := .complete, position := r.position + n }

/-- A fault of the construct behind which the cursor stands. -/
def failedWith (r : Cursor) (fault : Fault) : Step × Cursor :=
  let failure := (Failure.saying .malformedMarkup fault.message).seenAt r.position
  (.failed failure, if fault.endsReading then r.stopped 0 else r)

/-- The bytes run out `n` bytes on: a failure of the device, or else what a complete document that
ends there comes to. -/
def exhausted (r : Cursor) (n : Nat) (complete : Step × Cursor) : Step × Cursor :=
  let failure message := (Failure.saying .device message).seenAt (r.position + n)
  match r.ending with
  | .complete => complete
  | .failing message => (.failed (failure message), r.stopped n)
  | .dead message => (.failed (failure message), r)

/-- The bytes up to the next bracket. -/
def textBytes (r : Cursor) : List UInt8 :=
  r.rest.takeWhile (· != Byte.less)

/-- The bytes from the next bracket on. -/
def markupBytes (r : Cursor) : List UInt8 :=
  r.rest.dropWhile (· != Byte.less)

/-- What a stretch of text up to a bracket, or up to the end of a complete document, comes to. -/
def readStretch (r : Cursor) : Step × Cursor :=
  match decodeContent r.textBytes with
  | .ok text => (.event (.text text), r.movedBy r.textBytes.length)
  | .error fault => (r.movedBy r.textBytes.length).failedWith fault

/-- A stretch of text. -/
def readText (r : Cursor) : Step × Cursor :=
  if r.markupBytes.isEmpty then r.exhausted r.textBytes.length r.readStretch else r.readStretch

/-- A start tag, or an empty element when a slash ends the tag. The name is open from here on even
when the attributes are malformed. -/
def readOpenTag (content : List UInt8) (r : Cursor) : Step × Cursor :=
  if content.getLast? = some Byte.slash then
    match decodeTag content.dropLast with
    | .ok tag => (.event (.startTag tag), { r with queuedEnd := some tag.name })
    | .error fault => r.failedWith fault
  else
    let inside := { r with openNames := content.takeWhile (!Byte.isSpace ·) :: r.openNames }
    match decodeTag content with
    | .ok tag => (.event (.startTag tag), inside)
    | .error fault => inside.failedWith fault

/-- The name in an end tag: space behind it does not count. -/
def endTagName (content : List UInt8) : List UInt8 :=
  if content.all Byte.isSpace then content
  else (content.reverse.dropWhile Byte.isSpace).reverse

/-- An end tag, which closes the innermost element even when it has another name. -/
def readCloseTag (content : List UInt8) (r : Cursor) : Step × Cursor :=
  let name := endTagName content
  match r.openNames with
  | [] => r.failedWith (.unmatchedEnd (nameForMessage name))
  | top :: below =>
    let outside := { r with openNames := below }
    if name != top then
      outside.failedWith (.mismatchedEnd (nameForMessage top) (nameForMessage name))
    else
      match decodeName name with
      | .ok name => (.event (.endTag name), outside)
      | .error fault => outside.failedWith fault

/-- A construct, behind which the cursor stands already. -/
def readConstruct (construct : Construct) (r : Cursor) : Step × Cursor :=
  match construct with
  | .openTag content => r.readOpenTag content
  | .closeTag content => r.readCloseTag content
  | .cdata content =>
    match decodeName content with
    | .ok content => (.event (.cdata content), r)
    | .error fault => r.failedWith fault
  | .ignored => (.ignored, r)

/-- The construct that the bytes still to come begin with. -/
def step (r : Cursor) : Step × Cursor :=
  match r.rest with
  | [] => r.exhausted 0 (.ended, r)
  | b :: bytes =>
    if b != Byte.less then r.readText
    else
      match scan bytes with
      | .found construct size => (r.movedBy (size + 1)).readConstruct construct
      | .faulty fault size => (r.movedBy (size + 1)).failedWith fault
      | .unfinished construct =>
        r.exhausted r.rest.length ((r.stopped r.rest.length).failedWith (.unclosed construct))
      | .bareBang => r.exhausted 1 ((r.stopped 1).failedWith .unknownDeclaration)
      | .unknownDeclaration => (r.stopped 1).failedWith .unknownDeclaration

/-! ## Progress -/

/-- Whether reading has not met an end or a failure. -/
def Step.goesOn : Step → Bool
  | .event _ | .ignored => true
  | _ => false

theorem goesOn_failedWith (r : Cursor) (fault : Fault) : (r.failedWith fault).1.goesOn = false :=
  rfl

theorem rest_readOpenTag {r : Cursor} {content : List UInt8}
    (h : (r.readOpenTag content).1.goesOn = true) :
    (r.readOpenTag content).2.rest = r.rest := by
  unfold readOpenTag at h ⊢
  split
  · split
    · rfl
    · simp_all [goesOn_failedWith]
  · dsimp only
    split
    · rfl
    · simp_all [goesOn_failedWith]

theorem rest_readCloseTag {r : Cursor} {content : List UInt8}
    (h : (r.readCloseTag content).1.goesOn = true) :
    (r.readCloseTag content).2.rest = r.rest := by
  unfold readCloseTag at h ⊢
  dsimp only at h ⊢
  split
  · simp_all [goesOn_failedWith]
  · split
    · simp_all [goesOn_failedWith]
    · split
      · rfl
      · simp_all [goesOn_failedWith]

theorem rest_readConstruct {r : Cursor} {construct : Construct}
    (h : (r.readConstruct construct).1.goesOn = true) :
    (r.readConstruct construct).2.rest = r.rest := by
  cases construct with
  | openTag content => exact rest_readOpenTag h
  | closeTag content => exact rest_readCloseTag h
  | ignored => rfl
  | cdata content =>
    unfold readConstruct at h ⊢
    dsimp only at h ⊢
    split
    · rfl
    · simp_all [goesOn_failedWith]

theorem exhausted_eq {r : Cursor} {n : Nat} {complete : Step × Cursor}
    (h : (r.exhausted n complete).1.goesOn = true) : r.exhausted n complete = complete := by
  unfold exhausted at h ⊢
  dsimp only at h ⊢
  split <;> simp_all [Step.goesOn]

theorem rest_readStretch {r : Cursor} {b : UInt8} {bytes : List UInt8} (hr : r.rest = b :: bytes)
    (hb : (b != Byte.less) = true) (h : r.readStretch.1.goesOn = true) :
    r.readStretch.2.rest.length < r.rest.length := by
  unfold readStretch at h ⊢
  split at h
  · show (r.rest.drop r.textBytes.length).length < r.rest.length
    rw [textBytes, hr, List.takeWhile_cons, if_pos hb, List.length_drop]
    simp only [List.length_cons]
    omega
  · simp [goesOn_failedWith] at h

theorem rest_readText {r : Cursor} {b : UInt8} {bytes : List UInt8} (hr : r.rest = b :: bytes)
    (hb : (b != Byte.less) = true) (h : r.readText.1.goesOn = true) :
    r.readText.2.rest.length < r.rest.length := by
  unfold readText at h ⊢
  split
  · rename_i he
    rw [if_pos he] at h
    have same := exhausted_eq h
    rw [same] at h ⊢
    exact rest_readStretch hr hb h
  · rename_i he
    rw [if_neg he] at h
    exact rest_readStretch hr hb h

/-- A construct that is read without ending the document leaves fewer bytes. -/
theorem rest_step {r : Cursor} (h : r.step.1.goesOn = true) :
    r.step.2.rest.length < r.rest.length := by
  unfold step at h ⊢
  split
  · rename_i hr
    simp only [hr] at h
    rw [exhausted_eq h] at h
    simp [Step.goesOn] at h
  · rename_i b bytes hr
    simp only [hr] at h
    split
    · rename_i hb
      rw [if_pos hb] at h
      exact hr ▸ rest_readText hr hb h
    · rename_i hb
      rw [if_neg hb] at h
      split
      · rename_i construct size hs
        rw [hs] at h
        dsimp only at h
        rw [rest_readConstruct h]
        simp only [movedBy, hr, List.length_drop, List.length_cons]
        omega
      · rename_i hs; rw [hs] at h; simp [goesOn_failedWith] at h
      · rename_i hs
        rw [hs] at h
        dsimp only at h
        rw [exhausted_eq h] at h
        simp [goesOn_failedWith] at h
      · rename_i hs
        rw [hs] at h
        dsimp only at h
        rw [exhausted_eq h] at h
        simp [goesOn_failedWith] at h
      · rename_i hs; rw [hs] at h; simp [goesOn_failedWith] at h

/-! ## Reading events -/

/-- Reads up to the next construct that is an event. -/
def read (r : Cursor) : Except Failure (Option Event) × Cursor :=
  match _h : r.step with
  | (.event event, after) => (.ok (some event), after)
  | (.ended, after) => (.ok none, after)
  | (.failed failure, after) => (.error failure, after)
  | (.ignored, after) => after.read
termination_by r.rest.length
decreasing_by
  have := rest_step (r := r) (by rw [_h]; rfl)
  rwa [_h] at this

/-- One pull. -/
def next (r : Cursor) : Except Failure (Option Event) × Cursor :=
  match r.queuedEnd with
  | some name => (.ok (some (.endTag name)), { r with queuedEnd := none })
  | none => r.read

theorem length_read {r r' : Cursor} {e : Event} (h : r.read = (.ok (some e), r')) :
    r'.rest.length < r.rest.length := by
  fun_induction read r with
  | case1 r event after hs =>
    have := rest_step (r := r) (by rw [hs]; rfl)
    simp only [Prod.mk.injEq] at h
    rw [hs, h.2] at this
    exact this
  | case2 r after hs => simp at h
  | case3 r failure after hs => simp at h
  | case4 r after hs ih =>
    have := rest_step (r := r) (by rw [hs]; rfl)
    rw [hs] at this
    exact Nat.lt_trans (ih h) this

/-- Twice the bytes still to come, and one for an end tag that waits. -/
def remaining (r : Cursor) : Nat :=
  2 * r.rest.length + if r.queuedEnd.isSome then 1 else 0

theorem remaining_next {r r' : Cursor} {e : Event} (h : r.next = (.ok (some e), r')) :
    r'.remaining < r.remaining := by
  unfold next at h
  unfold remaining
  split at h
  · rename_i name hq
    simp only [Prod.mk.injEq] at h
    rw [← h.2, hq]
    simp
  · have := length_read h
    split <;> split <;> omega

instance : EventStream Cursor where
  next := Cursor.next
  position r := some r.position
  remaining := Cursor.remaining
  remaining_next := remaining_next

end Cursor

end SubtreeHarvest.Markup

/-! ## Sources of either kind -/

namespace SubtreeHarvest

/-- A document that is read, or events given beforehand. -/
inductive Source
  | document (cursor : Markup.Cursor)
  | feed (feed : Feed)

namespace Source

def ofBytes (bytes : List UInt8) : Source :=
  .document (.ofBytes bytes)

def next : Source → Except Failure (Option Event) × Source
  | .document cursor => (cursor.next.1, .document cursor.next.2)
  | .feed events => (events.next.1, .feed events.next.2)

def remaining : Source → Nat
  | .document cursor => cursor.remaining
  | .feed events => events.events.length

theorem remaining_next {s s' : Source} {e : Event} (h : s.next = (.ok (some e), s')) :
    s'.remaining < s.remaining := by
  cases s with
  | document cursor =>
    simp only [next, Prod.mk.injEq] at h
    rw [← h.2]
    exact Markup.Cursor.remaining_next (e := e) (Prod.ext h.1 rfl)
  | feed events =>
    simp only [next, Prod.mk.injEq] at h
    rw [← h.2]
    exact Feed.length_next (e := e) (Prod.ext h.1 rfl)

instance : EventStream Source where
  next := Source.next
  position
    | .document cursor => some cursor.position
    | .feed _ => none
  remaining := Source.remaining
  remaining_next := remaining_next

end Source

end SubtreeHarvest

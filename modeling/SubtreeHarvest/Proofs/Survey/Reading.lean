/-
What a plan reads from a fragment, when its request asks for no children: from the fragment of an
element that a document can understand the trimmed contents joined and the values of attributes, and
from that of a plain element the values that its start tag gives. A text that does not even begin with
a token is not read.
-/
import SubtreeHarvest.Plan
import SubtreeHarvest.Proofs.Document.Plain

namespace SubtreeHarvest

open Document

/-- What the element says to a request that asks for no children. -/
def Element.reading (e : Element) (request : Request) : Reading where
  text := if request.wantsText then some e.inside.contents else none
  values := .ofNames request.names e.tag.value
  under := .empty

namespace Plan

/-- A request that asks for no children has nothing to compile. -/
theorem compile_childless {request : Request} (h : request.under = .empty) :
    compile request = .ok ⟨request, .empty⟩ := by
  obtain ⟨wantsText, names, under⟩ := request
  cases h
  rfl

/-- A plan without children reads the fragment of whatever element a document can understand: the
contents of its events, and the values among the attributes of the element that its tag opens. -/
theorem read_readable {plan : Plan} {e : Element} {frame : Frame} (childless : plan.request.under = .empty)
    (opens : Opens .outside e.tag frame) (readable : e.inside.Readable frame.scope) :
    plan.read e.fragment.text = .ok {
      text := if plan.request.wantsText then some e.inside.contents else none
      values := .ofNames plan.request.names frame.tree.attributeValue
      under := .empty } := by
  obtain ⟨trees, parsed, said⟩ := ofText?_fragment opens readable
  obtain ⟨⟨wantsText, names, under⟩, compiled⟩ := plan
  cases childless
  have parse : Document.parse e.fragment.text =
      .ok ⟨[.element frame.name frame.attributes frame.declared trees]⟩ := by
    rw [Document.parse, parsed]
  have text : textAt ⟨[.element frame.name frame.attributes frame.declared trees]⟩ [0] =
      e.inside.contents := said
  have values : attributeAt ⟨[.element frame.name frame.attributes frame.declared trees]⟩ [0] =
      frame.tree.attributeValue := rfl
  rw [read, parse]
  show readElement compiled _ [0] ⟨wantsText, names, .empty⟩ = _
  rw [readElement, text, values]
  rfl

/-- From the fragment of a plain element a plan without children reads what the element says. -/
theorem read_plain {plan : Plan} {e : Element} (childless : plan.request.under = .empty)
    (ht : e.tag.Plain) (hi : e.inside.Plain) :
    plan.read e.fragment.text = .ok (e.reading plan.request) := by
  obtain ⟨frame, opens, fields, perm, attributes⟩ := ht.opens .outside
  have values : frame.tree.attributeValue = e.tag.value := by
    funext name
    rw [Frame.tree, attributes]
    exact attributeValue_localAttribute ht perm frame.name frame.declared _ name
  rw [read_readable childless opens (hi.readable frame.scope), values]
  rfl

/-- A text whose beginning is no token is not read. -/
theorem read_of_token?_none (plan : Plan) {text : String} {c : Char} {cs : List Char}
    (ht : text.toList = c :: cs) (undeclared : behindDeclaration? (c :: cs) = none)
    (h : token? c cs = none) : plan.read text =
      .error (.saying .unreadableFragment ("cannot reparse fragment: " ++ Failure.unexplained)) := by
  have unread : readOn? ⟨[], [], false⟩ text.toList = none := by
    rw [ht]
    exact readOn?_of_token?_none h
  rw [← ht] at undeclared
  rw [read, Document.parse, ofText?_of_undeclared undeclared, unread]
  rfl

end Plan

end SubtreeHarvest

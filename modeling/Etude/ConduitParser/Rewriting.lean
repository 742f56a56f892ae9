import Etude.Base.Traverse
import Mathlib.Data.List.AList

/-!
# Rewriting — XML nodes as HTML

`goNode` and `goElem` rename four kinds of elements, drop comments and instructions, and empty the
images.  What comes out has none of them left, so that rewriting it again changes nothing.
-/

namespace Etude
namespace ConduitParser

open Base

/-! ## Documents -/

abbrev Text :=
  String

structure Name where
  nameLocalName : Text
  nameNamespace : Option Text
  namePrefix : Option Text
  deriving DecidableEq, Repr

/-- A name without braces, as a string literal is read. -/
def Name.fromString (s : Text) : Name where
  nameLocalName := s
  nameNamespace := none
  namePrefix := none

/-- What names are compared by: the prefix does not count. -/
def Name.key (n : Name) : Option Text × Text :=
  (n.nameNamespace, n.nameLocalName)

/-- The pattern of a string literal. -/
def Name.Is (n : Name) (s : Text) : Prop :=
  n.key = (Name.fromString s).key

instance (n : Name) (s : Text) : Decidable (n.Is s) :=
  inferInstanceAs (Decidable (_ = _))

/-- A `Map Name Text`, by what names are compared by; the values keep the prefix. -/
abbrev Attributes :=
  AList fun _ : Option Text × Text => Option Text × Text

mutual

inductive Node
  | element (e : Element)
  | instruction (target data : Text)
  | content (t : Text)
  | comment (t : Text)

inductive Element
  | mk (name : Name) (attrs : Attributes) (children : List Node)

end

/-! ## The code -/

/-- `fixAttr` of `goElem` -/
def fixAttr (mattrs : Attributes) : Attributes :=
  match mattrs.lookup (Name.fromString "href").key with
  | some href => (mattrs.insert (Name.fromString "src").key (none, href.2)).erase
      (Name.fromString "href").key
  | none => mattrs

mutual

def goNode : Node → List Node
  | .element e => [.element (goElem e)]
  | .content t => [.content t]
  | .comment _ => []
  | .instruction _ _ => []

def goElem : Element → Element
  | .mk name attrs children =>
    if name.Is "para" then .mk (.fromString "p") attrs (goNodes children)
    else if name.Is "em" then .mk (.fromString "i") attrs (goNodes children)
    else if name.Is "strong" then .mk (.fromString "b") attrs (goNodes children)
    else if name.Is "image" then .mk (.fromString "img") (fixAttr attrs) []
    else .mk name attrs (goNodes children)

/-- `concatMap goNode` -/
def goNodes : List Node → List Node
  | [] => []
  | n :: ns => goNode n ++ goNodes ns

end

theorem goNodes_eq (ns : List Node) : goNodes ns = ns.flatMap goNode :=
  eq_flatMap (by rw [goNodes]) (fun n ns => by rw [goNodes]) ns

theorem goNodes_append (ms ns : List Node) : goNodes (ms ++ ns) = goNodes ms ++ goNodes ns := by
  rw [goNodes_eq, goNodes_eq, goNodes_eq, List.flatMap_append]

/-! ## Names -/

/-- The names that the patterns of `goElem` are for. -/
def Name.Matched (n : Name) : Prop :=
  n.Is "para" ∨ n.Is "em" ∨ n.Is "strong" ∨ n.Is "image"

instance (n : Name) : Decidable n.Matched :=
  inferInstanceAs (Decidable (_ ∨ _))

/-- The name of an element that is no image, rewritten. -/
def rename (name : Name) : Name :=
  if name.Is "para" then .fromString "p"
  else if name.Is "em" then .fromString "i"
  else if name.Is "strong" then .fromString "b"
  else name

theorem Name.Is.unique {n : Name} {s t : Text} (hs : n.Is s) (ht : n.Is t) : s = t :=
  congrArg Prod.snd (hs.symm.trans ht)

theorem goElem_of_image {name : Name} (h : name.Is "image") (attrs : Attributes)
    (children : List Node) :
    goElem (.mk name attrs children) = .mk (.fromString "img") (fixAttr attrs) [] := by
  have hother : ∀ s, s ≠ "image" → ¬ name.Is s := fun s hs hname => hs (hname.unique h)
  rw [goElem, if_neg (hother "para" (by decide)), if_neg (hother "em" (by decide)),
    if_neg (hother "strong" (by decide)), if_pos h]

theorem goElem_of_not_image {name : Name} (h : ¬ name.Is "image") (attrs : Attributes)
    (children : List Node) :
    goElem (.mk name attrs children) = .mk (rename name) attrs (goNodes children) := by
  rw [goElem, rename]
  split_ifs <;> rfl

theorem not_matched_rename {name : Name} (h : ¬ name.Is "image") : ¬ (rename name).Matched := by
  rw [rename]
  split_ifs with hpara hem hstrong
  · decide
  · decide
  · decide
  · rintro (hname | hname | hname | hname)
    · exact hpara hname
    · exact hem hname
    · exact hstrong hname
    · exact h hname

/-- Other elements keep their names. -/
theorem goElem_of_not_matched {name : Name} (h : ¬ name.Matched) (attrs : Attributes)
    (children : List Node) :
    goElem (.mk name attrs children) = .mk name attrs (goNodes children) := by
  simp only [Name.Matched, not_or] at h
  rw [goElem, if_neg h.1, if_neg h.2.1, if_neg h.2.2.1, if_neg h.2.2.2]

/-- No image keeps a reference under its old name. -/
theorem href_notMem_fixAttr (mattrs : Attributes) :
    (Name.fromString "href").key ∉ fixAttr mattrs := by
  rw [fixAttr]
  cases h : mattrs.lookup (Name.fromString "href").key with
  | none =>
      exact AList.lookup_eq_none.mp h
  | some href =>
      rw [AList.mem_erase, not_and]
      exact fun hne => absurd rfl hne

/-- The reference of an image becomes its source. -/
theorem lookup_src_fixAttr {mattrs : Attributes} {href : Option Text × Text}
    (h : mattrs.lookup (Name.fromString "href").key = some href) :
    (fixAttr mattrs).lookup (Name.fromString "src").key = some (none, href.2) := by
  rw [fixAttr, h]
  exact (AList.lookup_erase_ne (by decide)).trans (AList.lookup_insert _)

/-! ## Nodes at any depth -/

mutual

/-- The node and all nodes below it. -/
def Node.subnodes : Node → List Node
  | .element e => .element e :: e.subnodes
  | .content t => [.content t]
  | .comment t => [.comment t]
  | .instruction target data => [.instruction target data]

/-- All nodes below the element. -/
def Element.subnodes : Element → List Node
  | .mk _ _ children => subnodesOf children

def subnodesOf : List Node → List Node
  | [] => []
  | n :: ns => n.subnodes ++ subnodesOf ns

end

/-- Neither a comment, nor an instruction, nor an element of a matched name. -/
def Node.Rewritten : Node → Prop
  | .element (.mk name _ _) => ¬ name.Matched
  | .content _ => True
  | .comment _ => False
  | .instruction _ _ => False

theorem subnodesOf_eq (ns : List Node) : subnodesOf ns = ns.flatMap Node.subnodes :=
  eq_flatMap (by rw [subnodesOf]) (fun n ns => by rw [subnodesOf]) ns

theorem subnodesOf_append (ms ns : List Node) :
    subnodesOf (ms ++ ns) = subnodesOf ms ++ subnodesOf ns := by
  rw [subnodesOf_eq, subnodesOf_eq, subnodesOf_eq, List.flatMap_append]

mutual

theorem rewritten_goNode : ∀ (n : Node), ∀ m ∈ subnodesOf (goNode n), m.Rewritten
  | .element e => by
    intro m hm
    rw [goNode, subnodesOf, subnodesOf, List.append_nil, Node.subnodes] at hm
    exact rewritten_goElem e m hm
  | .content t => by
    intro m hm
    rw [goNode, subnodesOf, subnodesOf, List.append_nil, Node.subnodes, List.mem_singleton] at hm
    rw [hm]
    trivial
  | .comment _ => by
    intro m hm
    rw [goNode, subnodesOf] at hm
    cases hm
  | .instruction _ _ => by
    intro m hm
    rw [goNode, subnodesOf] at hm
    cases hm

theorem rewritten_goElem : ∀ (e : Element),
    ∀ m ∈ Node.element (goElem e) :: (goElem e).subnodes, m.Rewritten
  | .mk name attrs children => by
    intro m hm
    by_cases himage : name.Is "image"
    · rw [goElem_of_image himage, Element.subnodes, subnodesOf, List.mem_singleton] at hm
      rw [hm, Node.Rewritten]
      decide
    · rw [goElem_of_not_image himage, Element.subnodes, List.mem_cons] at hm
      rcases hm with rfl | hm
      · exact not_matched_rename himage
      · exact rewritten_goNodes children m hm

theorem rewritten_goNodes : ∀ (ns : List Node), ∀ m ∈ subnodesOf (goNodes ns), m.Rewritten
  | [] => by
    intro m hm
    rw [goNodes, subnodesOf] at hm
    cases hm
  | n :: ns => by
    intro m hm
    rw [goNodes, subnodesOf_append, List.mem_append] at hm
    rcases hm with hm | hm
    · exact rewritten_goNode n m hm
    · exact rewritten_goNodes ns m hm

end

/-! ## Text -/

mutual

/-- The texts of a node in document order. -/
def Node.texts : Node → List Text
  | .element e => e.texts
  | .content t => [t]
  | .comment _ => []
  | .instruction _ _ => []

def Element.texts : Element → List Text
  | .mk _ _ children => textsOf children

def textsOf : List Node → List Text
  | [] => []
  | n :: ns => n.texts ++ textsOf ns

end

mutual

/-- The texts of a node in document order, but for those below an image. -/
def Node.textsOutsideImages : Node → List Text
  | .element e => e.textsOutsideImages
  | .content t => [t]
  | .comment _ => []
  | .instruction _ _ => []

def Element.textsOutsideImages : Element → List Text
  | .mk name _ children => if name.Is "image" then [] else textsOutsideImagesOf children

def textsOutsideImagesOf : List Node → List Text
  | [] => []
  | n :: ns => n.textsOutsideImages ++ textsOutsideImagesOf ns

end

theorem textsOf_eq (ns : List Node) : textsOf ns = ns.flatMap Node.texts :=
  eq_flatMap (by rw [textsOf]) (fun n ns => by rw [textsOf]) ns

theorem textsOf_append (ms ns : List Node) :
    textsOf (ms ++ ns) = textsOf ms ++ textsOf ns := by
  rw [textsOf_eq, textsOf_eq, textsOf_eq, List.flatMap_append]

mutual

theorem texts_goNode : ∀ (n : Node), textsOf (goNode n) = n.textsOutsideImages
  | .element e => by
    rw [goNode, textsOf, textsOf, List.append_nil, Node.texts, texts_goElem e,
      Node.textsOutsideImages]
  | .content t => by
    rw [goNode, textsOf, textsOf, List.append_nil, Node.texts, Node.textsOutsideImages]
  | .comment _ => by
    rw [goNode, textsOf, Node.textsOutsideImages]
  | .instruction _ _ => by
    rw [goNode, textsOf, Node.textsOutsideImages]

theorem texts_goElem : ∀ (e : Element), (goElem e).texts = e.textsOutsideImages
  | .mk name attrs children => by
    rw [Element.textsOutsideImages]
    by_cases himage : name.Is "image"
    · rw [goElem_of_image himage, Element.texts, textsOf, if_pos himage]
    · rw [goElem_of_not_image himage, Element.texts, texts_goNodes children, if_neg himage]

theorem texts_goNodes : ∀ (ns : List Node), textsOf (goNodes ns) = textsOutsideImagesOf ns
  | [] => by
    rw [goNodes, textsOf, textsOutsideImagesOf]
  | n :: ns => by
    rw [goNodes, textsOf_append, texts_goNode n, texts_goNodes ns, textsOutsideImagesOf]

end

/-! ## A second time -/

mutual

theorem goNodes_goNode : ∀ (n : Node), goNodes (goNode n) = goNode n
  | .element e => by
    rw [goNode, goNodes, goNodes, goNode, goElem_goElem e, List.append_nil]
  | .content t => by
    rw [goNode, goNodes, goNodes, goNode, List.append_nil]
  | .comment _ => by
    rw [goNode, goNodes]
  | .instruction _ _ => by
    rw [goNode, goNodes]

theorem goElem_goElem : ∀ (e : Element), goElem (goElem e) = goElem e
  | .mk name attrs children => by
    by_cases himage : name.Is "image"
    · rw [goElem_of_image himage, goElem_of_not_matched (by decide), goNodes]
    · rw [goElem_of_not_image himage, goElem_of_not_matched (not_matched_rename himage),
        goNodes_goNodes children]

theorem goNodes_goNodes : ∀ (ns : List Node), goNodes (goNodes ns) = goNodes ns
  | [] => by
    rw [goNodes, goNodes]
  | n :: ns => by
    rw [goNodes, goNodes_append, goNodes_goNode n, goNodes_goNodes ns]

end

/-- Nothing that is rewritten away occurs at any depth in the result, its text is that outside the
images, and rewriting it again changes nothing. -/
theorem goNode_spec (n : Node) :
    (∀ m ∈ (goNode n).flatMap Node.subnodes, m.Rewritten) ∧
      (goNode n).flatMap Node.texts = n.textsOutsideImages ∧
      (goNode n).flatMap goNode = goNode n := by
  rw [← subnodesOf_eq, ← textsOf_eq, ← goNodes_eq]
  exact ⟨rewritten_goNode n, texts_goNode n, goNodes_goNode n⟩

end ConduitParser
end Etude

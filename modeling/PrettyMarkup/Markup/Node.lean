import PrettyMarkup.Markup.Document
import PrettyMarkup.Markup.StartTag

/-!
# Documents as trees

A well-formed document is a forest.  It is printed on one line, and its layout is the
tree itself: every tag and every leaf on a line of its own, at the depth of the
elements around it.
-/

namespace PrettyMarkup

namespace Markup

/-- A part of a document. -/
inductive Node where
  | element (name : List Char) (attributes : List Attribute) (children : List Node)
  | emptyElement (name : List Char) (attributes : List Attribute)
  | instruction (name : List Char) (attributes : List Attribute)
  | comment (body : List Char)
  | text (chars : List Char)
  deriving Repr

namespace Node

/-- A name with attributes, one space before each. -/
def printHead (name : List Char) (attributes : List Attribute) : List Char :=
  name ++ attributes.flatMap fun a => ' ' :: a.print

def startTag (name : List Char) (attributes : List Attribute) : List Char :=
  '<' :: (printHead name attributes ++ ['>'])

def endTag (name : List Char) : List Char := ['<', '/'] ++ name ++ ['>']

/-- The text of a node that is one fragment, and nothing for an element with children. -/
def leaf : Node → List Char
  | element .. => []
  | emptyElement name attributes => '<' :: (printHead name attributes ++ ['/', '>'])
  | instruction name attributes => ['<', '?'] ++ printHead name attributes ++ ['?', '>']
  | comment body => commentOpen ++ body ++ commentClose
  | text chars => chars

mutual

/-- A node on one line. -/
def print : Node → List Char
  | element name attributes children =>
    startTag name attributes ++ printAll children ++ endTag name
  | node => node.leaf

/-- Nodes one after another, with nothing between them. -/
def printAll : List Node → List Char
  | [] => []
  | node :: rest => node.print ++ printAll rest

end

mutual

/-- The lines of a node at a depth. -/
def lines (depth : Nat) : Node → List Line
  | element name attributes children =>
    ⟨String.ofList (startTag name attributes), depth⟩ ::
      (linesAll (depth + 1) children ++ [⟨String.ofList (endTag name), depth⟩])
  | node => [⟨String.ofList node.leaf, depth⟩]

/-- The lines of nodes at a depth, in order. -/
def linesAll (depth : Nat) : List Node → List Line
  | [] => []
  | node :: rest => node.lines depth ++ linesAll depth rest

end

/-! ## Well-formed forests -/

/-- A name that cannot be taken for another form of tag. -/
def IsPlainName (name : List Char) : Prop := IsName name ∧ '!' ∉ name ∧ '?' ∉ name

instance (name : List Char) : Decidable (IsPlainName name) := inferInstanceAs (Decidable (_ ∧ _))

/-- Whether a literal stays on one line and, where it is not guarded, is not split. -/
def IsWhole (guard : Bool) (literal : List Char) : Prop :=
  literal.any Text.isLineBreak = false ∧ (guard = false → holdsSplit literal = false)

instance (guard : Bool) (literal : List Char) : Decidable (IsWhole guard literal) :=
  inferInstanceAs (Decidable (_ ∧ _))

def IsPlainAttribute (guard : Bool) (a : Attribute) : Prop :=
  IsPlainName a.name ∧ a.WellFormed ∧ IsWhole guard a.value

instance (guard : Bool) (a : Attribute) : Decidable (IsPlainAttribute guard a) :=
  inferInstanceAs (Decidable (_ ∧ _))

def isText : Node → Bool
  | text _ => true
  | _ => false

mutual

/-- A node that is read back as it was printed. -/
def WellFormed (guard : Bool) : Node → Prop
  | element name attributes children =>
    IsPlainName name ∧ (∀ a ∈ attributes, IsPlainAttribute guard a) ∧
      AllWellFormed guard children
  | emptyElement name attributes | instruction name attributes =>
    IsPlainName name ∧ ∀ a ∈ attributes, IsPlainAttribute guard a
  | comment body => IsWhole guard body ∧ ¬ commentClose <:+: body
  | text chars => chars ≠ [] ∧ Text.trim chars = chars ∧ '<' ∉ chars ∧ '\n' ∉ chars

/-- Nodes that are well formed, no two texts side by side. -/
def AllWellFormed (guard : Bool) : List Node → Prop
  | [] => True
  | node :: rest =>
    node.WellFormed guard ∧ (node.isText && (rest.head?.map isText).getD false) = false ∧
      AllWellFormed guard rest

end

mutual

/-- Whether a node is well formed can be decided, part by part. -/
def decideWellFormed (guard : Bool) : (node : Node) → Decidable (node.WellFormed guard)
  | element name attributes children =>
    have := decideAllWellFormed guard children
    inferInstanceAs (Decidable (IsPlainName name ∧ (∀ a ∈ attributes, IsPlainAttribute guard a) ∧
      AllWellFormed guard children))
  | emptyElement name attributes =>
    inferInstanceAs (Decidable (IsPlainName name ∧ ∀ a ∈ attributes, IsPlainAttribute guard a))
  | instruction name attributes =>
    inferInstanceAs (Decidable (IsPlainName name ∧ ∀ a ∈ attributes, IsPlainAttribute guard a))
  | comment body => inferInstanceAs (Decidable (IsWhole guard body ∧ ¬ commentClose <:+: body))
  | text chars =>
    inferInstanceAs (Decidable (chars ≠ [] ∧ Text.trim chars = chars ∧ '<' ∉ chars ∧ '\n' ∉ chars))

def decideAllWellFormed (guard : Bool) : (nodes : List Node) → Decidable (AllWellFormed guard nodes)
  | [] => inferInstanceAs (Decidable True)
  | node :: rest =>
    have := decideWellFormed guard node
    have := decideAllWellFormed guard rest
    inferInstanceAs (Decidable (node.WellFormed guard ∧
      (node.isText && (rest.head?.map isText).getD false) = false ∧ AllWellFormed guard rest))

end

instance (guard : Bool) (nodes : List Node) : Decidable (AllWellFormed guard nodes) :=
  decideAllWellFormed guard nodes

end Node

end Markup

end PrettyMarkup

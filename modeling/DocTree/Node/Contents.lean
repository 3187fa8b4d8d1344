import DocTree.Node.Basic

/-! Tables of contents as nested lists of links to the same page. -/
namespace DocTree

namespace KindRef

def toNode (ref : KindRef) : Node := .link .page ("#" ++ ref.anchor) none [.text ref.label]

/-- Links to the kinds, with commas between them. -/
def toNodes : List KindRef → List Node
  | [] => []
  | [ref] => [ref.toNode]
  | ref :: rest => ref.toNode :: .text ", " :: toNodes rest

end KindRef

namespace TocEntry

/-- The title of an entry, as a link where the entry has an anchor that can be one. -/
def titleNode (title : String) : Option String → Node
  | some anchor =>
    if isValidAnchor anchor then .link .page ("#" ++ anchor) none [.text title] else .text title
  | none => .text title

/-- The kinds of an entry in parentheses. -/
def kindNodes (kinds : List KindRef) : List Node :=
  if kinds.isEmpty then [] else .text " (" :: KindRef.toNodes kinds ++ [.text ")"]

/-- A single node as it is, several as a group. -/
def grouped : List Node → Node
  | [node] => node
  | nodes => .group nodes

mutual

def toNode : TocEntry → Node
  | .mk title anchor kinds children => grouped <|
    titleNode title anchor :: kindNodes kinds
      ++ (if children.isEmpty then [] else [.list (.ordered 1) (toNodes children)])

def toNodes : List TocEntry → List Node
  | [] => []
  | entry :: rest => entry.toNode :: toNodes rest

end

end TocEntry

/-- A table of contents as an ordered list. -/
def TableOfContents.toNode (contents : TableOfContents) : Node :=
  .list (.ordered 1) (TocEntry.toNodes contents.entries)

end DocTree

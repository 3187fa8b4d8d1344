import DocTree.Node.Basic

/-! The normal form of a tree: groups are opened into their parent, neighbouring texts are one
text, and a group that holds a single node stands for that node in lists and tables. The parts
of a list and of a table stay apart. -/
namespace DocTree.Node

/-- Puts a node behind others; a text continues a text before it. The nodes are in reverse. -/
def pushMerged (reversed : List Node) (node : Node) : List Node :=
  match node, reversed with
  | text s, text before :: rest => text (before ++ s) :: rest
  | node, reversed => node :: reversed

/-- The nodes that take the place of a child: the parts of a group, or the child itself. -/
def spliced : Node → List Node
  | group children => children
  | node => [node]

/-- Children with groups opened and neighbouring texts merged. -/
def joined (children : List Node) : List Node :=
  ((children.flatMap spliced).foldl pushMerged []).reverse

/-- The only child of a group that has just one, and any other node itself. -/
def unwrapped : Node → Node
  | group [node] => node
  | node => node

mutual

/-- The normal form of a tree. -/
def normal : Node → Node
  | group children => group (joined (normals children))
  | quote children => quote (joined (normals children))
  | element tag attributes children => element tag attributes (joined (normals children))
  | emphasis style children => emphasis style (joined (normals children))
  | codeSpan children => codeSpan (joined (normals children))
  | richCode language children => richCode language (joined (normals children))
  | link target destination title children =>
    link target destination title (joined (normals children))
  | paragraph children => paragraph (joined (normals children))
  | heading level anchor children => heading level anchor (joined (normals children))
  | list style items => list style ((normals items).map unwrapped)
  | table header rows => table ((normals header).map unwrapped) (normalRows rows)
  | collapsible summary children => collapsible summary.normal (joined (normals children))
  | page metadata children => page metadata (joined (normals children))
  | text s => text s
  | rule => rule
  | comment s persist => comment s persist
  | image src title alt => image src title alt
  | code language s => code language s
  | notice => notice

def normals : List Node → List Node
  | [] => []
  | node :: rest => node.normal :: normals rest

def normalRows : List (List Node) → List (List Node)
  | [] => []
  | row :: rest => (normals row).map unwrapped :: normalRows rest

end

theorem normals_eq_map (nodes : List Node) : normals nodes = nodes.map normal := by
  induction nodes with
  | nil => rfl
  | cons node rest ih => simp [normals, ih]

theorem normalRows_eq_map (rows : List (List Node)) :
    normalRows rows = rows.map fun row => (row.map normal).map unwrapped := by
  induction rows with
  | nil => rfl
  | cons row rest ih => simp [normalRows, normals_eq_map, ih]

end DocTree.Node

import DocTree.Node.Json
import DocTree.Yaml.Reader

/-! Documentation trees in YAML. -/
namespace DocTree.Node

/-- How deep a YAML document may nest. -/
def yamlDepthLimit : Nat := 128

/-- The tree that a YAML text describes. -/
def ofYamlText? (text : String) : Option Node :=
  ((Yaml.ofText? text).filter fun value => value.depth ≤ yamlDepthLimit).bind ofJson?

end DocTree.Node

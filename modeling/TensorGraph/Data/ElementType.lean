/-!
# Element types

The two element types of arrays and nodes.
-/

namespace TensorGraph

/-- The type of the elements of an array or a node. -/
inductive ElementType where
  | f32
  | i64
  deriving DecidableEq, Repr

namespace ElementType

def title : ElementType → String
  | .f32 => "F32"
  | .i64 => "I64"

def name : ElementType → String
  | .f32 => "f32"
  | .i64 => "i64"

end ElementType
end TensorGraph

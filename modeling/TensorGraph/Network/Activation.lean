import TensorGraph.Engine.Variable

/-!
# Activations

The functions that a dense layer applies to its output.

`Activation.ofName?` reads a name in any mixture of upper and lower case. Case is that of Unicode:
besides the ASCII letters, a few characters have an upper case that consists of ASCII letters, such
as the long s and the dotless i.
-/

namespace TensorGraph

/-- The function that a dense layer applies to its output. -/
inductive Activation where
  | linear
  | relu
  | sigmoid
  | tanh
  | softmax
  deriving DecidableEq, Repr

/-- The upper case of a character if that consists of ASCII letters, and otherwise the character
itself, whose upper case has a letter outside ASCII or is the character. -/
def upperToAscii (c : Char) : List Char :=
  if c.toNat < 128 then [c.toUpper]
  else
    match c.toNat with
    | 0x00df => ['S', 'S']
    | 0x0131 => ['I']
    | 0x017f => ['S']
    | 0xfb00 => ['F', 'F']
    | 0xfb01 => ['F', 'I']
    | 0xfb02 => ['F', 'L']
    | 0xfb03 => ['F', 'F', 'I']
    | 0xfb04 => ['F', 'F', 'L']
    | 0xfb05 => ['S', 'T']
    | 0xfb06 => ['S', 'T']
    | _ => [c]

namespace Activation

/-- The activation of layers that are given none. -/
def standard : Activation := sigmoid

def name : Activation → String
  | linear => "LINEAR"
  | relu => "RELU"
  | sigmoid => "SIGMOID"
  | tanh => "TANH"
  | softmax => "SOFTMAX"

/-- The activation that a name stands for, whatever the case of its letters. -/
def ofName? (name : String) : Option Activation :=
  match String.ofList (name.toList.flatMap upperToAscii) with
  | "LINEAR" | "NONE" => some linear
  | "RELU" => some relu
  | "SIGMOID" => some sigmoid
  | "TANH" => some tanh
  | "SOFTMAX" => some softmax
  | _ => none

def op : Activation → UnaryOp
  | linear => .identity
  | relu => .relu
  | sigmoid => .sigmoid
  | tanh => .tanh
  | softmax => .softmax

/-- Append the node that applies the activation. -/
def compile (a : Activation) (input : Node) (name : Option String) : Call Node :=
  Engine.unary a.op input name

end Activation
end TensorGraph

import TensorGraph.Engine.Build

/-!
# Initial values

How the first value of a variable is made. Compiling an initializer appends the node that makes a
tensor of the requested shape.
-/

namespace TensorGraph

/-- How the first value of a variable is made. -/
inductive Initializer where
  | randomNormal (mean stddev : Float32) (seed : Option UInt64)
  | randomUniform (min max : Float32) (seed : Option UInt64)
  /-- Samples of a normal distribution within two deviations from the mean. -/
  | truncatedNormal (mean stddev : Float32) (seed : Option UInt64)
  | zeros
  | ones
  | constant (value : Float32)

namespace Initializer

/-- The initializer of parameters that are given none. -/
def standard : Initializer := randomNormal 0 0.05 none

/-- The initializer with a seed; one that does not sample is left as it is. -/
def withSeed (seed : UInt64) : Initializer → Initializer
  | randomNormal mean stddev _ => randomNormal mean stddev (some seed)
  | randomUniform min max _ => randomUniform min max (some seed)
  | truncatedNormal mean stddev _ => truncatedNormal mean stddev (some seed)
  | other => other

/-- Whether two initializers are the same, their parameters compared as numbers. -/
def agrees : Initializer → Initializer → Bool
  | randomNormal m s seed, randomNormal m' s' seed' => m == m' && s == s' && seed == seed'
  | randomUniform a b seed, randomUniform a' b' seed' => a == a' && b == b' && seed == seed'
  | truncatedNormal m s seed, truncatedNormal m' s' seed' => m == m' && s == s' && seed == seed'
  | zeros, zeros => true
  | ones, ones => true
  | constant x, constant y => x == y
  | _, _ => false

/-- Append the node that makes a tensor of a shape. -/
def compile (shape : DeclaredShape) : Initializer → Call Node
  | randomNormal mean stddev seed => Engine.randomNormal shape mean stddev seed
  | randomUniform min max seed => Engine.randomUniform shape min max seed
  | truncatedNormal mean stddev seed => Engine.truncatedNormal shape mean stddev seed
  | zeros => Engine.zeros shape
  | ones => Engine.ones shape
  | constant x =>
    match shape.concrete? with
    | some dims => Engine.constant (.full dims x) none
    | none => Engine.refuse (.compilation (.openInitializer shape))

end Initializer
end TensorGraph

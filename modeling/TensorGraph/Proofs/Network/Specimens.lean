import TensorGraph.Learning.Descent
import TensorGraph.Network.Layer

/-!
# Specimens of layers and descents

Small layers and descents with round numbers. Where a result about all networks or models is applied
to one of them, that one is made of these.

## Main definitions

* `Input.singles` and `Input.pairs`: inputs with rows of one number and of two.
* `Dense.ones`: dense layers with weights of one.
* `Dropout.half`: a dropout of half of the numbers.
* `Descent.halves` and `Descent.halfRate`: descents at a learning rate of one half.
-/

namespace TensorGraph

/-- An input with rows of one number. -/
def Input.singles (name : Option String) : Input := ⟨[1], name, by decide⟩

/-- An input with rows of two numbers. -/
def Input.pairs (name : Option String) : Input := ⟨[2], name, by decide⟩

theorem Dense.units_pos_three : 0 < 3 := Nat.succ_pos 2

/-- A layer whose weights begin at one and whose bias begins at zero. It is reducible so that its
width is computed from its units. -/
abbrev Dense.ones (units : Nat) (activation : Option Activation) (name : Option String)
    (h : 0 < units) : Dense :=
  ⟨units, activation, some .ones, some .zeros, name, h⟩

/-- A layer that drops half of the numbers on average. -/
def Dropout.half (seed : Option UInt64) (name : Option String) : Dropout :=
  ⟨0.5, seed, name, by decide +kernel⟩

/-- Descent with one half for the learning rate and for the momentum. -/
def Descent.halves : Descent := ⟨0.5, 0.5, by decide +kernel, by decide +kernel⟩

/-- Descent with one half for the learning rate and without momentum. -/
def Descent.halfRate : Descent :=
  ⟨Descent.halves.learningRate, Descent.standard.momentum, Descent.halves.learningRate_pos,
    Descent.standard.momentum_nonneg⟩

end TensorGraph

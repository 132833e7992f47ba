import TensorGraph.Data.Value

/-!
# Training plans

How long to train and in which batches. An epoch passes over the rows in windows of one batch each;
`TrainingPlan.windows` lists them in order.
-/

namespace TensorGraph

/-- What happens to the rows left over when batches do not divide the data. -/
inductive PartialBatch where
  /-- They form a smaller batch. -/
  | include
  /-- They are left out. -/
  | drop
  deriving DecidableEq, Repr

namespace PartialBatch

def name : PartialBatch → String
  | .include => "include"
  | drop => "drop"

end PartialBatch

/-- How to train. -/
structure TrainingPlan where
  epochs : Nat := 100
  batchSize : Nat := 32
  verbose : Bool := true
  partialBatch : PartialBatch := .include
  deriving DecidableEq, Repr

namespace TrainingPlan

/-- The windows of one epoch over a number of rows, as first row and length: all full batches, then
the rows left over if they are included. Batches without rows have no windows. -/
def windows (p : TrainingPlan) (rows : Nat) : List (Nat × Nat) :=
  if p.batchSize = 0 then []
  else
    -- `full` windows of a whole batch, and `rest` rows after them
    let full := rows / p.batchSize
    let rest := rows % p.batchSize
    (List.range full).map (fun i => (i * p.batchSize, p.batchSize)) ++
      (if 0 < rest ∧ p.partialBatch = .include then [(full * p.batchSize, rest)] else [])

end TrainingPlan
end TensorGraph

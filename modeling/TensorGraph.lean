import TensorGraph.Document.Configuration
import TensorGraph.Engine.Summary
import TensorGraph.Model.Program
import TensorGraph.Proofs.Graph.Typing
import TensorGraph.Proofs.Graph.Finishing
import TensorGraph.Proofs.Evaluation.Locality
import TensorGraph.Proofs.Evaluation.Outcome
import TensorGraph.Proofs.Evaluation.Settled
import TensorGraph.Proofs.Evaluation.Recomputation
import TensorGraph.Proofs.Evaluation.Related
import TensorGraph.Proofs.Evaluation.Shapes
import TensorGraph.Proofs.Engine.Change
import TensorGraph.Proofs.Engine.Building
import TensorGraph.Proofs.Engine.Running
import TensorGraph.Proofs.Engine.Reachable
import TensorGraph.Proofs.Run.Outputs
import TensorGraph.Proofs.Run.Commitment
import TensorGraph.Proofs.Run.Shapes
import TensorGraph.Proofs.Derivative.Numbers
import TensorGraph.Proofs.Derivative.Tensors
import TensorGraph.Proofs.Derivative.Pairing
import TensorGraph.Proofs.Derivative.Operations
import TensorGraph.Proofs.Derivative.Sweep
import TensorGraph.Proofs.Derivative.Runs
import TensorGraph.Proofs.Run.Gradients
import TensorGraph.Proofs.Run.Overrides
import TensorGraph.Proofs.Evaluation.Drawing
import TensorGraph.Proofs.Run.Failing
import TensorGraph.Proofs.Engine.Coherent
import TensorGraph.Proofs.Engine.Initial
import TensorGraph.Proofs.Engine.Growing
import TensorGraph.Proofs.Model.Compiling
import TensorGraph.Proofs.Learning.Objective
import TensorGraph.Proofs.Learning.Descent
import TensorGraph.Proofs.Learning.Momentum
import TensorGraph.Proofs.Model.Training
import TensorGraph.Proofs.Engine.Disposal
import TensorGraph.Proofs.Graph.Reaching
import TensorGraph.Proofs.Engine.Veiled
import TensorGraph.Proofs.Engine.Twin
import TensorGraph.Proofs.Run.Idle
import TensorGraph.Proofs.Model.Reaching
import TensorGraph.Proofs.Model.Inference
import TensorGraph.Proofs.Evaluation.Conforming
import TensorGraph.Proofs.Run.Succeeding
import TensorGraph.Proofs.Learning.Windows
import TensorGraph.Proofs.Model.Stopping
import TensorGraph.Proofs.Derivative.Reading
import TensorGraph.Proofs.Learning.Weighting
import TensorGraph.Proofs.Model.Descending
import TensorGraph.Proofs.Model.Weighting
import TensorGraph.Proofs.Network.Lineage
import TensorGraph.Proofs.Network.Chronicle
import TensorGraph.Proofs.Network.Workshop
import TensorGraph.Proofs.Tensor.Windows
import TensorGraph.Proofs.Model.Rowwise
import TensorGraph.Proofs.Model.Layout
import TensorGraph.Proofs.Model.Predicting
import TensorGraph.Proofs.Model.Slicing
import TensorGraph.Proofs.Number.Unpacked
import TensorGraph.Proofs.Number.Rounding
import TensorGraph.Proofs.Number.Exact
import TensorGraph.Proofs.Tensor.Exact
import TensorGraph.Proofs.Evaluation.Exact
import TensorGraph.Proofs.Run.Integers
import TensorGraph.Proofs.Graph.Feeding
import TensorGraph.Proofs.Engine.Ranging
import TensorGraph.Proofs.Engine.Sourced
import TensorGraph.Proofs.Model.Attaching
import TensorGraph.Proofs.Model.Assembling
import TensorGraph.Proofs.Model.Targets
import TensorGraph.Proofs.Run.Refusing
import TensorGraph.Proofs.Run.Feeding
import TensorGraph.Proofs.Model.Feeding
import TensorGraph.Proofs.Graph.Renaming
import TensorGraph.Proofs.Evaluation.Renaming
import TensorGraph.Proofs.Engine.Renaming
import TensorGraph.Proofs.Engine.Mirroring
import TensorGraph.Proofs.Run.Renaming
import TensorGraph.Proofs.Learning.Mirroring
import TensorGraph.Proofs.Network.Mirroring
import TensorGraph.Proofs.Model.Staging
import TensorGraph.Proofs.Model.Renaming
import TensorGraph.Proofs.Model.Mirroring
import TensorGraph.Proofs.Model.Metrics
import TensorGraph.Proofs.Evaluation.Widening
import TensorGraph.Proofs.Run.Widening
import TensorGraph.Proofs.Network.Retracing
import TensorGraph.Proofs.Model.Recompiling
import TensorGraph.Proofs.Engine.Lasting
import TensorGraph.Proofs.Run.Bound
import TensorGraph.Proofs.Model.Counting
import TensorGraph.Proofs.Model.Sparing
import TensorGraph.Proofs.Engine.Ending
import TensorGraph.Proofs.Network.Abandoning
import TensorGraph.Proofs.Run.Fitting
import TensorGraph.Proofs.Run.Increments
import TensorGraph.Proofs.Shape.Abstraction
import TensorGraph.Proofs.Shape.Semilattice
import TensorGraph.Proofs.Evaluation.Confinement
import TensorGraph.Proofs.Evaluation.Ordering
import TensorGraph.Proofs.Engine.Dependence
import TensorGraph.Proofs.Engine.Accepting
import TensorGraph.Proofs.Engine.Creating
import TensorGraph.Proofs.Learning.Aggregating
import TensorGraph.Proofs.Learning.Reordering
import TensorGraph.Proofs.Engine.Laying
import TensorGraph.Proofs.Network.Naming
import TensorGraph.Proofs.Network.Admitting
import TensorGraph.Proofs.Network.Orderly
import TensorGraph.Proofs.Model.Readying
import TensorGraph.Proofs.Learning.Declaring
import TensorGraph.Proofs.Learning.Following
import TensorGraph.Proofs.Model.Aiming
import TensorGraph.Proofs.Model.Concluding
import TensorGraph.Proofs.Model.Combining
import TensorGraph.Proofs.Learning.Epochs
import TensorGraph.Proofs.Model.Scoring
import TensorGraph.Proofs.Graph.Undropping
import TensorGraph.Proofs.Evaluation.Undropping
import TensorGraph.Proofs.Run.Undropping
import TensorGraph.Proofs.Evaluation.Sampling
import TensorGraph.Proofs.Engine.Demanding
import TensorGraph.Proofs.Run.Sampling
import TensorGraph.Proofs.Network.Ledger
import TensorGraph.Proofs.Engine.Declining
import TensorGraph.Proofs.Engine.Differentiating
import TensorGraph.Proofs.Number.Order
import TensorGraph.Proofs.Run.Retrying
import TensorGraph.Proofs.Network.Copying
import TensorGraph.Proofs.Engine.Objecting
import TensorGraph.Proofs.Network.Objecting
import TensorGraph.Proofs.Model.Objecting
import TensorGraph.Proofs.Model.Deferring
import TensorGraph.Proofs.Model.Naming
import TensorGraph.Proofs.Random.Resampling
import TensorGraph.Proofs.Document.Scanning
import TensorGraph.Proofs.Document.Rereading
import TensorGraph.Proofs.Document.RoundTrip
import TensorGraph.Proofs.Tensor.Guarded
import TensorGraph.Proofs.Learning.CrossEntropy

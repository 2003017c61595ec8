import TensorStorage.Document
import TensorStorage.LogSettings
import TensorStorage.Pack.Guarded
import TensorStorage.Tensor.Dense
import TensorStorage.Tensor.Equality
import TensorStorage.Tensor.Text
import TensorStorage.Walk.Kernel
import TensorStorage.Walk.Nested
import TensorStorage.Workspace
import TensorStorage.Proofs.Outcome
import TensorStorage.Proofs.Lists
import TensorStorage.Proofs.CoordinateBuffer
import TensorStorage.Proofs.Walk.Nesting
import TensorStorage.Proofs.Walk.Search
import TensorStorage.Proofs.Walk.Loop
import TensorStorage.Proofs.Walk.Iteration
import TensorStorage.Proofs.Walk.Bounds
import TensorStorage.Proofs.Pack.Order
import TensorStorage.Proofs.Pack.Keys
import TensorStorage.Proofs.Format
import TensorStorage.Proofs.Pack.Resolve
import TensorStorage.Proofs.Pack.Nodes
import TensorStorage.Proofs.Pack.Layout
import TensorStorage.Proofs.Pack.Fill
import TensorStorage.Proofs.Pack.Segments
import TensorStorage.Proofs.Pack.ReadBack
import TensorStorage.Proofs.Pack.Merge
import TensorStorage.Proofs.Pack.RoundTrip
import TensorStorage.Proofs.Pack.Structure
import TensorStorage.Proofs.Pack.Ranges
import TensorStorage.Proofs.Pack.Distinct
import TensorStorage.Proofs.Pack.Repetitions
import TensorStorage.Proofs.Pack.Verdict
import TensorStorage.Proofs.Pack.Batches
import TensorStorage.Proofs.Tensor.Iterator
import TensorStorage.Proofs.Tensor.Pack
import TensorStorage.Proofs.Tensor.Batches
import TensorStorage.Proofs.Tensor.Content
import TensorStorage.Proofs.Tensor.Refinement
import TensorStorage.Proofs.Tensor.Requests
import TensorStorage.Proofs.Tensor.Commands
import TensorStorage.Proofs.Tensor.Soundness
import TensorStorage.Proofs.Tensor.Generations
import TensorStorage.Proofs.Tensor.Sessions
import TensorStorage.Proofs.Matrix
import TensorStorage.Proofs.Tensor.Equality
import TensorStorage.Proofs.Tensor.Transpose
import TensorStorage.Proofs.Pack.Canonical
import TensorStorage.Proofs.Matrix.Exchange
import TensorStorage.Proofs.Tensor.Distinct
import TensorStorage.Proofs.Walk.Positions
import TensorStorage.Proofs.Tensor.Callers
import TensorStorage.Proofs.Tensor.Lending
import TensorStorage.Proofs.Tensor.Repetitions
import TensorStorage.Proofs.Pack.Arrival
import TensorStorage.Proofs.Relabelling
import TensorStorage.Proofs.Walk.Words
import TensorStorage.Proofs.Tensor.Kinds
import TensorStorage.Proofs.DenseArray
import TensorStorage.Proofs.Tensor.Dense
import TensorStorage.Proofs.Walk.Kernel
import TensorStorage.Proofs.Pack.Guarded

import KernelFusion.Script.Context
import KernelFusion.Script.Whole
import KernelFusion.Proofs.Cluster.Shapes
import KernelFusion.Proofs.Cluster.Writes
import KernelFusion.Proofs.Device.Failing
import KernelFusion.Proofs.Device.Interface
import KernelFusion.Proofs.Device.Matching
import KernelFusion.Proofs.Emit.AccessOrder
import KernelFusion.Proofs.Emit.AccessText
import KernelFusion.Proofs.Emit.Termination
import KernelFusion.Proofs.Emit.ControlFlow
import KernelFusion.Proofs.Graph.Editing
import KernelFusion.Proofs.Graph.Splicing
import KernelFusion.Proofs.Kernel.Dimensions
import KernelFusion.Proofs.Kernel.Modes
import KernelFusion.Proofs.Kernel.Sequence
import KernelFusion.Proofs.Memory.Isolation
import KernelFusion.Proofs.Pass.Evaluation
import KernelFusion.Proofs.Pass.Updates
import KernelFusion.Proofs.Recording.Integers
import KernelFusion.Proofs.Recording.Workshop
import KernelFusion.Proofs.Memory.Coverage
import KernelFusion.Proofs.Memory.Freeing
import KernelFusion.Proofs.Pass.Cheap
import KernelFusion.Proofs.Pass.Cursor
import KernelFusion.Proofs.Pass.Settled
import KernelFusion.Proofs.Emit.Constants
import KernelFusion.Proofs.Emit.Renaming
import KernelFusion.Proofs.Emit.Threads
import KernelFusion.Proofs.Graph.Users
import KernelFusion.Proofs.Operation.Overloads

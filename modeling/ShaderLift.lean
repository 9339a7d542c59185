import ShaderLift.Main
import ShaderLift.CommandLine.Folder
import ShaderLift.Proofs.Flow.Grammar
import ShaderLift.Proofs.Lift.Mirror
import ShaderLift.Proofs.Decode.WellFormed
import ShaderLift.Proofs.Decode.Append
import ShaderLift.Proofs.Decode.RoundTrip
import ShaderLift.Proofs.Retarget.Shader
import ShaderLift.Proofs.Lift.UniformBlock
import ShaderLift.Proofs.Lift.Lane
import ShaderLift.Proofs.Lift.Resolution
import ShaderLift.Proofs.Lift.Registers
import ShaderLift.Proofs.Bounds.Files
import ShaderLift.Proofs.Lift.Globals
import ShaderLift.Proofs.Bounds.Words
import ShaderLift.Proofs.Hull.Partition
import ShaderLift.Proofs.Lift.Linkage
import ShaderLift.Proofs.Invariance.Declarations
import ShaderLift.Proofs.Invariance.Nops
import ShaderLift.Proofs.Container.Stored
import ShaderLift.Proofs.Container.Chunks
import ShaderLift.Proofs.Container.Signatures
import ShaderLift.Proofs.Container.Reflected
import ShaderLift.Proofs.Glsl.Printed
import ShaderLift.Proofs.Lift.Bindings
import ShaderLift.Proofs.Decode.Truncation
import ShaderLift.Proofs.Effects.Switches
import ShaderLift.Proofs.Access.Fetches
import ShaderLift.Proofs.Lift.Scratch
import ShaderLift.Proofs.Lift.Immediates
import ShaderLift.Proofs.Dialect.Parsing
import ShaderLift.Proofs.Text.Identifiers
import ShaderLift.Proofs.Decode.Footprint
import ShaderLift.Proofs.Hull.Stitching
import ShaderLift.Proofs.Glsl.Literals

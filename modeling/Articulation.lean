import Articulation.Main
import Articulation.Sample
import Articulation.Proofs.Assembly.Planning
import Articulation.Proofs.Assembly.Growth
import Articulation.Proofs.Assembly.Outcome
import Articulation.Proofs.Assembly.Conservation
import Articulation.Proofs.Rose.Breadth
import Articulation.Proofs.Assembly.Tree
import Articulation.Proofs.Assembly.Acceptance
import Articulation.Proofs.Rose.Reordering
import Articulation.Proofs.Assembly.Declaration
import Articulation.Proofs.Body.Finishing
import Articulation.Proofs.Rlsim.Parts
import Articulation.Proofs.Rlsim.Contents
import Articulation.Proofs.Rlsim.Mirror
import Articulation.Proofs.Rlsim.Rooted
import Articulation.Proofs.Rlsim.Actuators
import Articulation.Proofs.NameMap
import Articulation.Proofs.Attributes
import Articulation.Proofs.Element.Layout
import Articulation.Proofs.Element.Conformance
import Articulation.Proofs.Element.Growth
import Articulation.Proofs.Element.Arena
import Articulation.Proofs.Markup.Tree
import Articulation.Proofs.Markup.Conformance
import Articulation.Proofs.Defaults
import Articulation.Proofs.Markup.Soundness
import Articulation.Proofs.Rose.Pruning
import Articulation.Proofs.Markup.Projection
import Articulation.Proofs.Copies
import Articulation.Proofs.Sections
import Articulation.Proofs.Session
import Articulation.Proofs.Resolved
import Articulation.Proofs.Geometry
import Articulation.Proofs.Geometry.Fitting
import Articulation.Proofs.Geometry.Segments
import Articulation.Proofs.Placement
import Articulation.Proofs.Rose.Matching
import Articulation.Proofs.Body.Numbering
import Articulation.Proofs.Body.Reframing
import Articulation.Proofs.Robot
import Articulation.Proofs.Mjcf.Steps
import Articulation.Proofs.Mjcf.Reading
import Articulation.Proofs.Mjcf.ChildClass
import Articulation.Proofs.Mjcf.Parts
import Articulation.Proofs.Mjcf.Mirror
import Articulation.Proofs.Mjcf.Outcome
import Articulation.Proofs.Assembly.References
import Articulation.Proofs.Urdf.Parts
import Articulation.Proofs.Rlsim.References
import Articulation.Proofs.References
import Articulation.Proofs.Assembly.Failure
import Articulation.Proofs.Steady
import Articulation.Proofs.Urdf.Relinking
import Articulation.Proofs.Body.Frames
import Articulation.Proofs.Mjcf.Coordinates
import Articulation.Proofs.Mjcf.Frames
import Articulation.Proofs.Mjcf.Placement
import Articulation.Proofs.Assembly.Mapping
import Articulation.Proofs.Location.Steps
import Articulation.Proofs.Location.Shapes
import Articulation.Proofs.Location.Mjcf
import Articulation.Proofs.Location.Urdf
import Articulation.Proofs.Location.Documents
import Articulation.Proofs.Rose.Positions
import Articulation.Proofs.Body.Access
import Articulation.Proofs.Body.Worlds
import Articulation.Proofs.Assembly.Order
import Articulation.Proofs.Element.Comparison
import Articulation.Proofs.Element.Renumbering
import Articulation.Proofs.Text
import Articulation.Proofs.Printing
import Articulation.Proofs.Registry
import Articulation.Proofs.Naming.Fresh
import Articulation.Proofs.Naming.Labels
import Articulation.Proofs.Naming.Parts
import Articulation.Proofs.Naming.Mjcf
import Articulation.Proofs.Naming.Urdf
import Articulation.Proofs.Naming.Documents

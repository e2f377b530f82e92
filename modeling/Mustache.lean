import Mustache.Doc.Value
import Mustache.Doc.Error
import Mustache.Doc.Engine
import Mustache.Node.Equality
import Mustache.Outline
import Mustache.Scripted
import Mustache.Proofs.Render.Restoration
import Mustache.Proofs.Site.Finite
import Mustache.Proofs.Site.Placement
import Mustache.Proofs.Render.Twins
import Mustache.Proofs.Dependencies.Walked
import Mustache.Proofs.Dependencies.Footprint
import Mustache.Proofs.Render.Echo
import Mustache.Proofs.Reading.Printed
import Mustache.Proofs.Reading.Balance
import Mustache.Proofs.Render.Simulation
import Mustache.Proofs.Render.Relaxed
import Mustache.Proofs.Render.Independence
import Mustache.Proofs.Render.Splice
import Mustache.Proofs.Render.Lockstep
import Mustache.Proofs.Render.Tandem
import Mustache.Proofs.Text.Html
import Mustache.Proofs.Reading.Indents
import Mustache.Proofs.Render.Beside
import Mustache.Proofs.Render.Escaped
import Mustache.Proofs.Render.Shifted
import Mustache.Proofs.Render.Indented
import Mustache.Proofs.Render.Lined
import Mustache.Proofs.Render.Filled
import Mustache.Proofs.Render.Activations
import Mustache.Proofs.Dependencies.Missing
import Mustache.Proofs.Render.Unrelated
import Mustache.Proofs.Doc.Template
import Mustache.Proofs.Linked
import Mustache.Proofs.Render.Cancelled
import Mustache.Proofs.Validation.InPlace
import Mustache.Proofs.Dependencies.Reached
import Mustache.Proofs.Engine.Held
import Mustache.Proofs.Engine.Restored
import Mustache.Proofs.Reading.Faults
import Mustache.Proofs.Reading.Texts
import Mustache.Proofs.Reading.Ranges
import Mustache.Proofs.Render.Sections
import Mustache.Proofs.Render.Constant
import Mustache.Proofs.Cycles
import Mustache.Proofs.Reading.Forward
import Mustache.Proofs.Names
import Mustache.Proofs.Text.Entities
import Mustache.Proofs.Doc.Value
import Mustache.Proofs.Render.Dotted
import Mustache.Proofs.Render.Conditions
import Mustache.Proofs.Reading.Cuts
import Mustache.Proofs.Reading.Normal

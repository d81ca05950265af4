import Folio.Proofs.Analysis.Inclusion
import Folio.Proofs.Analysis.Order
import Folio.Proofs.Analysis.Scope
import Folio.Proofs.Config.Session
import Folio.Proofs.Library.History
import Folio.Proofs.Namespace.Layers
import Folio.Proofs.Stylesheet.Resolution
import Folio.Proofs.Template.Inheritance
import Folio.Proofs.Template.Recursion
import Folio.Proofs.Template.Isolation
import Folio.Proofs.Template.Overriding
import Folio.Proofs.Template.Shown
import Folio.Proofs.Template.Composition
import Folio.Proofs.Template.Concatenation
import Folio.Proofs.Template.ErrorPosition
import Folio.Proofs.Template.Trimming
import Folio.Proofs.Value.Dates
import Folio.Publication
import Folio.Sources
import Folio.Proofs.Template.Lockstep
import Folio.Proofs.Template.Hygiene
import Folio.Proofs.Template.Caller
import Folio.Proofs.Template.Machine
import Folio.Proofs.Template.Overflow
import Folio.Proofs.Namespace.Absence
import Folio.Proofs.Template.Subscript
import Folio.Proofs.Analysis.Runs
import Folio.Proofs.Template.Scoping
import Folio.Proofs.Analysis.Occurrence
import Folio.Proofs.Analysis.FreeVariables
import Folio.Proofs.Analysis.Callables
import Folio.Proofs.Analysis.View
import Folio.Proofs.Analysis.Crossing
import Folio.Proofs.Analysis.Scanning
import Folio.Proofs.Analysis.Outputs
import Folio.Proofs.Analysis.Widening
import Folio.Proofs.Calendar.Runs
import Folio.Proofs.Calendar.FixedFormat
import Folio.Proofs.Analysis.Prefixes
import Folio.Proofs.Template.Exactness
import Folio.Proofs.Template.Progression
import Folio.Proofs.Value.Promotion
import Folio.Proofs.Config.Layers
import Folio.Proofs.Frontmatter.Division
import Folio.Proofs.Sources.Selection
import Folio.Proofs.Sources.Planning
import Folio.Proofs.Stylesheet.Directive
import Folio.Proofs.Loader.Confinement

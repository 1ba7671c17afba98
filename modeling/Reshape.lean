import Reshape.Json.Equality
import Reshape.Specification
import Reshape.Proofs.Chain.Composition
import Reshape.Proofs.Chain.Ending
import Reshape.Proofs.Chain.Replay
import Reshape.Proofs.Lookup.Casts
import Reshape.Proofs.Mapper.Accounting
import Reshape.Proofs.Mapper.Borrowing
import Reshape.Proofs.Mapper.Direct
import Reshape.Proofs.Mapper.Elements
import Reshape.Proofs.Mapper.FailModes
import Reshape.Proofs.Mapper.Order
import Reshape.Proofs.Mapper.Rewriting
import Reshape.Proofs.Template.Json
import Reshape.Proofs.Number.Power
import Reshape.Proofs.Lookup.Faults
import Reshape.Proofs.Lookup.Literals
import Reshape.Proofs.Mapper.Lists
import Reshape.Proofs.Mapper.Mappings
import Reshape.Proofs.Plan.Faults
import Reshape.Proofs.Lookup.Conditions
import Reshape.Proofs.Lookup.Indices
import Reshape.Proofs.Specification

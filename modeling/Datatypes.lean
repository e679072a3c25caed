import Datatypes.Main
import Datatypes.Proofs.Token.Lexeme
import Datatypes.Proofs.Token.Lossless
import Datatypes.Proofs.Constant.Evaluation
import Datatypes.Proofs.Constant.Exactness
import Datatypes.Proofs.Class.CopyOnWrite
import Datatypes.Proofs.Class.Sections
import Datatypes.Proofs.Class.MethodNames
import Datatypes.Proofs.Class.Determination
import Datatypes.Proofs.Definition.Json
import Datatypes.Proofs.Convention.Listing
import Datatypes.Proofs.Declaration.Printer
import Datatypes.Proofs.Declaration.Acceptance
import Datatypes.Proofs.Declaration.Guard
import Datatypes.Proofs.Declaration.RoundTrip
import Datatypes.Proofs.Declaration.Location
import Datatypes.Proofs.Declaration.Shape
import Datatypes.Proofs.Declaration.Scoping
import Datatypes.Proofs.Declaration.Concatenation
import Datatypes.Proofs.Emit.Layout
import Datatypes.Proofs.Command.Atomicity
import Datatypes.Proofs.Command.Idempotence
import Datatypes.Proofs.Declaration.Commenting
import Datatypes.Proofs.Declaration.Declared
import Datatypes.Proofs.Declaration.Clause
import Datatypes.Proofs.Declaration.Conditions
import Datatypes.Proofs.Declaration.Attachment
import Datatypes.Proofs.Token.Gluing
import Datatypes.Proofs.Declaration.Capture
import Datatypes.Proofs.Declaration.Enclosure
import Datatypes.Proofs.Declaration.Values
import Datatypes.Proofs.Declaration.Enumeration
import Datatypes.Proofs.Declaration.Respelling
import Datatypes.Proofs.Autoload.Choice
import Datatypes.Proofs.Autoload.Containment
import Datatypes.Proofs.Emit.Effect
import Datatypes.Proofs.Input.Search
import Datatypes.Proofs.Token.Iteration

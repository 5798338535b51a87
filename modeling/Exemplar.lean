import Exemplar.Main
import Exemplar.Proofs.Sample.Call
import Exemplar.Proofs.Sample.Container
import Exemplar.Proofs.TypeExpr.Canonical
import Exemplar.Proofs.TypeExpr.Spelling
import Exemplar.Proofs.TypeExpr.Unlimited
import Exemplar.Proofs.Json.Form
import Exemplar.Proofs.Decl.Components
import Exemplar.Proofs.Decl.Form
import Exemplar.Proofs.Decl.Agrees
import Exemplar.Proofs.Decl.RoundTrip
import Exemplar.Proofs.Decl.Place
import Exemplar.Proofs.Sample.Blocks
import Exemplar.Proofs.Sample.Cap
import Exemplar.Proofs.Sample.Influence
import Exemplar.Proofs.Sample.Log
import Exemplar.Proofs.Sample.Members
import Exemplar.Proofs.Sample.Override
import Exemplar.Proofs.Command.Expand
import Exemplar.Proofs.Command.Fields
import Exemplar.Proofs.Fixture.Run
import Exemplar.Proofs.Literal.Delegate
import Exemplar.Proofs.Sample.Lines
import Exemplar.Proofs.Sample.TextMap
import Exemplar.Proofs.Text.Words
import Exemplar.Proofs.Text.Group
import Exemplar.Proofs.Literal.Float

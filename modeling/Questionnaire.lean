import Questionnaire.Files
import Questionnaire.Main
import Questionnaire.Proofs.Form.Run
import Questionnaire.Proofs.Markup.Remnant
import Questionnaire.Proofs.Region.Page
import Questionnaire.Proofs.Region.Content
import Questionnaire.Proofs.Form.Display
import Questionnaire.Proofs.Markup.Entity
import Questionnaire.Proofs.Markup.StartTag
import Questionnaire.Proofs.Markup.Place
import Questionnaire.Proofs.Markup.WellFormed
import Questionnaire.Proofs.Markup.RoundTrip
import Questionnaire.Proofs.Placeholder.Slice
import Questionnaire.Proofs.Placeholder.Spans
import Questionnaire.Proofs.Graph.Build
import Questionnaire.Proofs.Placeholder.Fill
import Questionnaire.Proofs.Form.Interpreter
import Questionnaire.Proofs.Form.Dispatch
import Questionnaire.Proofs.Graph.Partition
import Questionnaire.Proofs.Graph.Dangling
import Questionnaire.Proofs.Graph.Interaction
import Questionnaire.Proofs.Form.Steady
import Questionnaire.Proofs.Form.Refusal
import Questionnaire.Proofs.Widget.Confirmation
import Questionnaire.Proofs.Form.Reachable
import Questionnaire.Proofs.Preview.Lines
import Questionnaire.Proofs.Preview.Freshness
import Questionnaire.Proofs.Markup.Enclosed
import Questionnaire.Proofs.Region.Indicator
import Questionnaire.Proofs.Form.Opening
import Questionnaire.Proofs.Spec.Grammar
import Questionnaire.Proofs.Json.Literal
import Questionnaire.Proofs.Json.Source
import Questionnaire.Proofs.Json.Reader
import Questionnaire.Proofs.Outline.RoundTrip
import Questionnaire.Proofs.Widget.Parity
import Questionnaire.Proofs.Widget.Controls
import Questionnaire.Proofs.Question.Routing
import Questionnaire.Proofs.Question.Slot
import Questionnaire.Proofs.Placeholder.Holes
import Questionnaire.Proofs.Placeholder.Stages
import Questionnaire.Proofs.Markup.Values
import Questionnaire.Proofs.Widget.Entry
import Questionnaire.Proofs.Definition.Shown
import Questionnaire.Proofs.Markup.Reference
import Questionnaire.Proofs.Markup.Source
import Questionnaire.Proofs.Markup.Order
import Questionnaire.Proofs.Markup.Settled
import Questionnaire.Proofs.Markup.Raw
import Questionnaire.Proofs.Markup.Cursor
import Questionnaire.Proofs.Markup.Progress
import Questionnaire.Proofs.Markup.Walk
import Questionnaire.Proofs.Markup.WrittenTag
import Questionnaire.Proofs.Markup.Visit

import UsagePolicy.Main
import UsagePolicy.Number.Reading
import UsagePolicy.Payload.Dump
import UsagePolicy.Proofs.Encoding.ActivePath
import UsagePolicy.Proofs.Encoding.EqualPolicies
import UsagePolicy.Proofs.Encoding.FirstFault
import UsagePolicy.Proofs.Encoding.OwnErrors
import UsagePolicy.Proofs.Encoding.Visitor
import UsagePolicy.Proofs.Json.FingerprintBytes
import UsagePolicy.Proofs.Telemetry.Accounting
import UsagePolicy.Proofs.Payload.Fields
import UsagePolicy.Proofs.Payload.Acceptance
import UsagePolicy.Proofs.Payload.Parts
import UsagePolicy.Proofs.Payload.RoundTrip
import UsagePolicy.Proofs.Json.Readable
import UsagePolicy.Proofs.Payload.Grammar
import UsagePolicy.Proofs.Encoding.DepictedNesting
import UsagePolicy.Proofs.Payload.Plain
import UsagePolicy.Proofs.Encoding.PlainPolicies
import UsagePolicy.Proofs.Encoding.WrittenDocument
import UsagePolicy.Proofs.CommandLine.Endings
import UsagePolicy.Proofs.Encoding.Limits
import UsagePolicy.Proofs.Encoding.UnfoldedPolicies
import UsagePolicy.Proofs.Json.Layouts
import UsagePolicy.Proofs.Json.NormalForm
import UsagePolicy.Proofs.Encoding.Elsewhere
import UsagePolicy.Proofs.Encoding.Participants
import UsagePolicy.Proofs.Settings.ParticipantSources
import UsagePolicy.Proofs.Settings.Reports
import UsagePolicy.Proofs.Logging.StructuredLine

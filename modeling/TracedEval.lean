import TracedEval.Http.Routes
import TracedEval.Main
import TracedEval.Stored.Text
import TracedEval.Proofs.Environment
import TracedEval.Proofs.Record
import TracedEval.Proofs.Plan
import TracedEval.Proofs.Level
import TracedEval.Proofs.Transport
import TracedEval.Proofs.Dependence
import TracedEval.Proofs.Reliance
import TracedEval.Proofs.PlainTerms
import TracedEval.Proofs.Table
import TracedEval.Proofs.TableContents
import TracedEval.Proofs.TotalOrder
import TracedEval.Proofs.Transparency
import TracedEval.Cache.Threads
import TracedEval.Proofs.Threads.Steps
import TracedEval.Proofs.Threads.Soundness
import TracedEval.Proofs.Waiting
import TracedEval.Proofs.Threads.Claims
import TracedEval.Proofs.Threads.SingleComputation
import TracedEval.Proofs.Threads.Progress
import TracedEval.Proofs.Construction
import TracedEval.Proofs.Honesty
import TracedEval.Proofs.Reading.Numerals
import TracedEval.Proofs.Reading.Tokens
import TracedEval.Proofs.Reading.Forms
import TracedEval.Proofs.Reading.RoundTrip
import TracedEval.Proofs.Reading.Legible
import TracedEval.Proofs.Reading.Rereading
import TracedEval.Proofs.NormalForms
import TracedEval.Proofs.Audit
import TracedEval.Proofs.Retention
import TracedEval.Proofs.WellKeyed
import TracedEval.Proofs.Interchange
import TracedEval.Proofs.Interchange.Values
import TracedEval.Proofs.Interchange.Loose
import TracedEval.Proofs.Interchange.Members
import TracedEval.Proofs.Interchange.Texts
import TracedEval.Proofs.Interchange.Legibility
import TracedEval.Proofs.NestedCalls
import TracedEval.Proofs.Termination
import TracedEval.Proofs.Stratified
import TracedEval.Proofs.Spelling.EqualTerms
import TracedEval.Proofs.Spelling.Writing
import TracedEval.Proofs.Spelling.Respelling
import TracedEval.Proofs.Spelling.Congruence
import TracedEval.Proofs.Storage.Terms
import TracedEval.Proofs.Storage.Texts
import TracedEval.Proofs.Storage.Evaluations
import TracedEval.Proofs.Storage.Regularity
import TracedEval.Proofs.Expansion.Simultaneous
import TracedEval.Proofs.Expansion.Composition
import TracedEval.Proofs.ScriptVariables
import TracedEval.Proofs.Reading.Layout
import TracedEval.Proofs.Ingredients
import TracedEval.Proofs.TraceLines
import TracedEval.Proofs.Deepening
import TracedEval.Proofs.Concatenation
import TracedEval.Proofs.Reading.Slices
import TracedEval.Proofs.Reading.Scanners
import TracedEval.Proofs.Reading.Descent
import TracedEval.Proofs.Reading.Outcome
import TracedEval.Proofs.Satisfaction
import TracedEval.Proofs.Arguments

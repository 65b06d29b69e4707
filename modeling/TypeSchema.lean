import TypeSchema.Files.Tree
import TypeSchema.Main
import TypeSchema.Proofs.Induction
import TypeSchema.Proofs.Listing
import TypeSchema.Proofs.Faults
import TypeSchema.Proofs.FirstFault
import TypeSchema.Proofs.Nodes
import TypeSchema.Proofs.Compilable
import TypeSchema.Proofs.RootPosition
import TypeSchema.Proofs.Acceptance
import TypeSchema.Proofs.Membership
import TypeSchema.Proofs.Meaning
import TypeSchema.Proofs.Height
import TypeSchema.Proofs.Limit
import TypeSchema.Proofs.WellFormed
import TypeSchema.Proofs.Dialect
import TypeSchema.Proofs.NormalForm
import TypeSchema.Proofs.Monotone
import TypeSchema.Proofs.Widening
import TypeSchema.Proofs.Readers
import TypeSchema.Proofs.Routes
import TypeSchema.Proofs.Records
import TypeSchema.Proofs.Spelling
import TypeSchema.Proofs.EmptyUnion
import TypeSchema.Proofs.Places
import TypeSchema.Proofs.UnknownKind
import TypeSchema.Proofs.Decoding
import TypeSchema.Proofs.NullPolicies
import TypeSchema.Proofs.Rewriting
import TypeSchema.Proofs.Grouping
import TypeSchema.Proofs.Omission
import TypeSchema.Proofs.TupleItems
import TypeSchema.Proofs.Correspondence
import TypeSchema.Proofs.Strictness
import TypeSchema.Proofs.Relabelling
import TypeSchema.Proofs.FieldNames
import TypeSchema.Proofs.DiagnosticNames
import TypeSchema.Proofs.EntityDecoding
import TypeSchema.Proofs.ObjectSchemas
import TypeSchema.Proofs.CompletionOrder
import TypeSchema.Proofs.Looking
import TypeSchema.Proofs.Loading
import TypeSchema.Proofs.BatchRuns
import TypeSchema.Proofs.FieldByField
import TypeSchema.Proofs.ArrayRoots
import TypeSchema.Proofs.Desugaring
import TypeSchema.Proofs.Tokens
import TypeSchema.Proofs.Scanning
import TypeSchema.Proofs.TrailingText
import TypeSchema.Proofs.Replacing
import TypeSchema.Proofs.Paths
import TypeSchema.Proofs.Finding
import TypeSchema.Proofs.Descending
import TypeSchema.Proofs.Siblings

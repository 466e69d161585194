import EntityScript.Name.Case
import EntityScript.Quote
import EntityScript.Doc
import EntityScript.Type.Resolve
import EntityScript.Type.Column
import EntityScript.Code.Object
import EntityScript.Code.Import
import EntityScript.Code.Member
import EntityScript.Code.Region
import EntityScript.Render
import EntityScript.Number.Shortest
import EntityScript.Toml.Reader
import EntityScript.Input.Config
import EntityScript.Input.Schema
import EntityScript.Input.Source
import EntityScript.Build.Model
import EntityScript.Build.Enumeration
import EntityScript.Run.CommandLine
import EntityScript.Main
import EntityScript.Proofs.Building
import EntityScript.Proofs.Closure
import EntityScript.Proofs.FileNames
import EntityScript.Proofs.Idempotence
import EntityScript.Proofs.Layout
import EntityScript.Proofs.NewFiles
import EntityScript.Proofs.Occurrence
import EntityScript.Proofs.Outcome
import EntityScript.Proofs.Outputs
import EntityScript.Proofs.Overwriting
import EntityScript.Proofs.Paths
import EntityScript.Proofs.PivotFields
import EntityScript.Proofs.PivotUses
import EntityScript.Proofs.References
import EntityScript.Proofs.Registration
import EntityScript.Proofs.Reordering
import EntityScript.Proofs.Resolution
import EntityScript.Proofs.RoundTrip
import EntityScript.Proofs.Saving
import EntityScript.Proofs.Selections
import EntityScript.Proofs.Sources
import EntityScript.Proofs.TypeNames
import EntityScript.Proofs.Grammar
import EntityScript.Proofs.Reading
import EntityScript.Proofs.Extent
import EntityScript.Proofs.Acceptance
import EntityScript.Proofs.Literals
import EntityScript.Proofs.Requoting
import EntityScript.Proofs.Constants
import EntityScript.Proofs.Accessors
import EntityScript.Proofs.Meaning
import EntityScript.Proofs.Agreement
import EntityScript.Proofs.CaseValues
import EntityScript.Proofs.Renewal
import EntityScript.Proofs.DocTags
import EntityScript.Proofs.RelationMembers
import EntityScript.Proofs.OwnRegions
import EntityScript.Proofs.Turns
import EntityScript.Proofs.EnumFiles
import EntityScript.Proofs.Discovery
import EntityScript.Proofs.LoadedOnce
import EntityScript.Proofs.Unions
import EntityScript.Proofs.Constructors
import EntityScript.Proofs.ServiceFaults
import EntityScript.Proofs.Precedence
import EntityScript.Proofs.InterfaceNames
import EntityScript.Proofs.ConstantTypes
import EntityScript.Proofs.ConstructedClasses
import EntityScript.Proofs.WrittenTypes
import EntityScript.Proofs.SnakeCase
import EntityScript.Proofs.Bytes
import EntityScript.Proofs.Spans
import EntityScript.Proofs.Emission
import EntityScript.Proofs.MemberModes

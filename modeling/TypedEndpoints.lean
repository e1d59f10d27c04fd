import TypedEndpoints.Build.Config
import TypedEndpoints.Build.FileSystem
import TypedEndpoints.Build.Files
import TypedEndpoints.Build.Run
import TypedEndpoints.CommandLine.Arguments
import TypedEndpoints.CommandLine.Execution
import TypedEndpoints.CommandLine.Plan
import TypedEndpoints.Decimal.Reading
import TypedEndpoints.Decimal.Writing
import TypedEndpoints.Generation.Output
import TypedEndpoints.Generation.References
import TypedEndpoints.Generation.SchemaType
import TypedEndpoints.Http.Client
import TypedEndpoints.Http.Description
import TypedEndpoints.Http.Method
import TypedEndpoints.Http.Offline
import TypedEndpoints.Http.Param
import TypedEndpoints.Http.Request
import TypedEndpoints.Http.Response
import TypedEndpoints.Http.Script
import TypedEndpoints.Http.Template
import TypedEndpoints.Http.Url
import TypedEndpoints.Json.Numeral
import TypedEndpoints.Json.Printer
import TypedEndpoints.Json.Reader
import TypedEndpoints.Json.Tree
import TypedEndpoints.Json.Typed
import TypedEndpoints.Main
import TypedEndpoints.OpenApi.Document
import TypedEndpoints.OpenApi.Parsing
import TypedEndpoints.OpenApi.Reading
import TypedEndpoints.OrderedMap
import TypedEndpoints.Proofs.Generation.MemberNames
import TypedEndpoints.Proofs.Generation.StrictReferences
import TypedEndpoints.Proofs.Generation.Within
import TypedEndpoints.Proofs.Http.Conservation
import TypedEndpoints.Proofs.Http.Splitting
import TypedEndpoints.Proofs.Http.Substitution
import TypedEndpoints.Proofs.OpenApi.DistinctKeys
import TypedEndpoints.Proofs.OpenApi.Parameters
import TypedEndpoints.Proofs.OrderedMap
import TypedEndpoints.Proofs.Source.Outcomes
import TypedEndpoints.Source.Json
import TypedEndpoints.Source.Node
import TypedEndpoints.Source.Reading
import TypedEndpoints.Source.Toml
import TypedEndpoints.Source.Yaml
import TypedEndpoints.Text.Cut
import TypedEndpoints.Text.ControlSequence
import TypedEndpoints.Text.Literal
import TypedEndpoints.Text.Utf8
import TypedEndpoints.Toml.Reader
import TypedEndpoints.Toml.Scalar
import TypedEndpoints.Toml.Value
import TypedEndpoints.TypeScript.Layout
import TypedEndpoints.Yaml.Core
import TypedEndpoints.Yaml.Cursor
import TypedEndpoints.Yaml.Node
import TypedEndpoints.Yaml.Token
import TypedEndpoints.Yaml.Token.Block
import TypedEndpoints.Yaml.Token.Mark
import TypedEndpoints.Yaml.Token.Plain
import TypedEndpoints.Yaml.Token.Quoted
import TypedEndpoints.Yaml.Token.Scanner
import TypedEndpoints.Proofs.Enumeration
import TypedEndpoints.Proofs.Http.Settling
import TypedEndpoints.Proofs.OpenApi.Positions
import TypedEndpoints.Proofs.Generation.FirstReference
import TypedEndpoints.Proofs.Build.Effect
import TypedEndpoints.Proofs.TypeScript.Layouts
import TypedEndpoints.Proofs.Generation.DeclaredNames
import TypedEndpoints.Proofs.PathParameters
import TypedEndpoints.Proofs.Http.Exchange
import TypedEndpoints.Proofs.Http.Interleaving
import TypedEndpoints.Proofs.OpenApi.SourceOrder
import TypedEndpoints.Proofs.Generation.OutputOrder
import TypedEndpoints.Proofs.Http.Headers
import TypedEndpoints.Proofs.Generation.OverrideScope
import TypedEndpoints.Proofs.Build.Accounting
import TypedEndpoints.Proofs.Generation.Visible
import TypedEndpoints.Proofs.CommandLine.Reporting
import TypedEndpoints.Proofs.Http.FixedBase
import TypedEndpoints.Proofs.Text.Cut
import TypedEndpoints.Proofs.Http.OwnQuery
import TypedEndpoints.Proofs.Http.Failures
import TypedEndpoints.Proofs.OpenApi.Resolution
import TypedEndpoints.Proofs.Generation.RequestTypes
import TypedEndpoints.Proofs.Text.Utf8
import TypedEndpoints.Proofs.Json.Grammar
import TypedEndpoints.Proofs.Http.ErrorBodies
import TypedEndpoints.Proofs.TypeScript.Keys
import TypedEndpoints.Proofs.OpenApi.Alike
import TypedEndpoints.Proofs.Generation.Spellings
import TypedEndpoints.Proofs.Generation.TypeExpressions
import TypedEndpoints.Proofs.OpenApi.PathItems
import TypedEndpoints.Proofs.Source.Agreement
import TypedEndpoints.Proofs.OpenApi.UnknownKeys
import TypedEndpoints.Proofs.Source.TomlRecords
import TypedEndpoints.Proofs.Build.Configuration
import TypedEndpoints.Proofs.CommandLine.Planning
import TypedEndpoints.Proofs.Http.AppendedQuery
import TypedEndpoints.Proofs.Http.Braces
import TypedEndpoints.Proofs.Http.Stages
import TypedEndpoints.Proofs.Text.Blank
import TypedEndpoints.Proofs.Http.ContentType
import TypedEndpoints.Proofs.Json.Scalars
import TypedEndpoints.Proofs.Json.Members
import TypedEndpoints.Proofs.Http.ParamJson
import TypedEndpoints.Proofs.CommandLine.Mappings
import TypedEndpoints.Proofs.TypeScript.Lines
import TypedEndpoints.Proofs.TypeScript.Indentation
import TypedEndpoints.Proofs.Yaml.LeadingBracket
import TypedEndpoints.Proofs.Yaml.LeadingList
import TypedEndpoints.Proofs.Source.NoRecord
import TypedEndpoints.Proofs.Json.Opening
import TypedEndpoints.Proofs.OpenApi.Formats

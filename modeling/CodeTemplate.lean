import CodeTemplate.Config
import CodeTemplate.Shipped
import CodeTemplate.Api.OfDescription
import CodeTemplate.Proofs.Number.Order
import CodeTemplate.Proofs.Markup.Grammar
import CodeTemplate.Proofs.Markup.Reading
import CodeTemplate.Proofs.Markup.Tags
import CodeTemplate.Proofs.Markup.Derivation
import CodeTemplate.Proofs.Render.Action
import CodeTemplate.Proofs.Render.Congruence
import CodeTemplate.Proofs.Generator.Call
import CodeTemplate.Proofs.Generator.Cache
import CodeTemplate.Proofs.Generator.Callee
import CodeTemplate.Proofs.Generator.Session
import CodeTemplate.Proofs.Generator.Guards
import CodeTemplate.Proofs.Generator.Nesting
import CodeTemplate.Proofs.Language.StringReader
import CodeTemplate.Proofs.Language.ReadBack
import CodeTemplate.Proofs.Text.Infix
import CodeTemplate.Proofs.Comment.Ending
import CodeTemplate.Proofs.Markup.Indent
import CodeTemplate.Proofs.Render.Comment
import CodeTemplate.Proofs.Markup.Outline
import CodeTemplate.Proofs.Markup.Cutting
import CodeTemplate.Proofs.Markup.Stretch
import CodeTemplate.Proofs.Render.FreeNames
import CodeTemplate.Proofs.Generator.Bindings
import CodeTemplate.Proofs.Render.Collector
import CodeTemplate.Proofs.Render.ParameterList
import CodeTemplate.Proofs.Markup.Place
import CodeTemplate.Proofs.Markup.Bracket
import CodeTemplate.Proofs.Markup.Locality
import CodeTemplate.Proofs.Markup.Origin
import CodeTemplate.Proofs.Render.Failure
import CodeTemplate.Proofs.Generator.Errors
import CodeTemplate.Proofs.Api.Reading
import CodeTemplate.Proofs.Api.Denotation
import CodeTemplate.Proofs.Api.Linking
import CodeTemplate.Proofs.Api.Loading
import CodeTemplate.Proofs.Api.Consistency
import CodeTemplate.Proofs.Api.Order
import CodeTemplate.Proofs.Render.Shape
import CodeTemplate.Proofs.Render.Typing
import CodeTemplate.Proofs.Generator.Library
import CodeTemplate.Proofs.Shipped
import CodeTemplate.Proofs.Markup.Appending
import CodeTemplate.Proofs.Markup.Relocation
import CodeTemplate.Proofs.Markup.Joining
import CodeTemplate.Proofs.Render.Relocation
import CodeTemplate.Proofs.Render.Joining
import CodeTemplate.Proofs.Generator.Appending
import CodeTemplate.Proofs.Markup.Name
import CodeTemplate.Proofs.Markup.Offset
import CodeTemplate.Proofs.Generator.Naming
import CodeTemplate.Proofs.Generator.Quoting
import CodeTemplate.Proofs.Generator.Events
import CodeTemplate.Proofs.Generator.Journal
import CodeTemplate.Proofs.Generator.Stream
import CodeTemplate.Proofs.Markup.Nesting
import CodeTemplate.Proofs.Signature
import CodeTemplate.Proofs.Text.Words
import CodeTemplate.Proofs.Comment.Paragraph
import CodeTemplate.Proofs.Comment.Filling
import CodeTemplate.Proofs.Comment.Reflow
import CodeTemplate.Proofs.Comment.Keeping
import CodeTemplate.Proofs.Comment.Greedy
import CodeTemplate.Proofs.Generator.Spelling
import CodeTemplate.Proofs.Markup.Strings
import CodeTemplate.Proofs.Markup.Resumption
import CodeTemplate.Proofs.Markup.Stripping
import CodeTemplate.Proofs.Value.Resolution
import CodeTemplate.Proofs.Api.Parameters
import CodeTemplate.Proofs.Render.BlankLines
import CodeTemplate.Proofs.Comment.Plain
import CodeTemplate.Proofs.Value.OfData
import CodeTemplate.Proofs.Text.Lines
import CodeTemplate.Proofs.Render.Copyright
import CodeTemplate.Proofs.Files.Source
import CodeTemplate.Proofs.Language.Numeral
import CodeTemplate.Proofs.Config.Completion

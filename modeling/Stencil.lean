import Stencil.Conversion
import Stencil.Document.Arena
import Stencil.Formula
import Stencil.Json.Strict
import Stencil.Proofs.Document.Brackets
import Stencil.Proofs.Document.Dump
import Stencil.Proofs.Document.Lines
import Stencil.Proofs.Document.Threads
import Stencil.Proofs.Document.Trimmed
import Stencil.Proofs.Evaluation.Absence
import Stencil.Proofs.Evaluation.KeyPath
import Stencil.Proofs.Evaluation.ListLiteral
import Stencil.Proofs.Evaluation.Names
import Stencil.Proofs.Evaluation.Silence
import Stencil.Proofs.Expr.Comparisons
import Stencil.Proofs.Expr.Completeness
import Stencil.Proofs.Expr.Escape
import Stencil.Proofs.Expr.Height
import Stencil.Proofs.Expr.KeyPath
import Stencil.Proofs.Expr.Lexemes
import Stencil.Proofs.Expr.StringLiteral
import Stencil.Proofs.Model.Bindings
import Stencil.Proofs.Model.Composition
import Stencil.Proofs.Model.Json
import Stencil.Proofs.Number.Rounding
import Stencil.Proofs.Rendering.Balance
import Stencil.Proofs.Rendering.Chain
import Stencil.Proofs.Rendering.Delivery
import Stencil.Proofs.Rendering.EndTags
import Stencil.Proofs.Rendering.Loop
import Stencil.Proofs.Rendering.LoopNames
import Stencil.Proofs.Rendering.Siblings
import Stencil.Proofs.Rendering.Trimmed
import Stencil.Proofs.Scope.Flat
import Stencil.Proofs.Scope.Frames
import Stencil.Proofs.Segment.Append
import Stencil.Proofs.Segment.Layout
import Stencil.Proofs.Segment.Spans
import Stencil.Proofs.Statement.Names
import Stencil.Proofs.Statement.Written
import Stencil.Proofs.Template.Cache
import Stencil.Proofs.Template.Limit
import Stencil.Proofs.Template.Report
import Stencil.Proofs.Text.Quoted
import Stencil.Proofs.Text.Trim
import Stencil.Proofs.Value.Conversion
import Stencil.Template

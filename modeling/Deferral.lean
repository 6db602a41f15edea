import Deferral.Decimal.Read
import Deferral.Decimal.Shown
import Deferral.Token.Scan
import Deferral.Tree.Same
import Deferral.Tree.Shape
import Deferral.Tree.Text
import Deferral.Conversion.CommonType
import Deferral.Typing.Operation
import Deferral.Constant.Arithmetic
import Deferral.SymbolTable.Basic
import Deferral.Phrase.Type
import Deferral.Resolution.Definition
import Deferral.Unit.Grammar
import Deferral.Unit.Signature
import Deferral.Unit.Definition
import Deferral.CommandLine.Directory
import Deferral.Main
import Deferral.Proofs.Conversion.NormalForm
import Deferral.Proofs.Execution.Outcome
import Deferral.Proofs.Typing.WellTyped
import Deferral.Proofs.Typing.Phrase
import Deferral.Proofs.Table.Contents
import Deferral.Proofs.Constant.Value
import Deferral.Proofs.Table.Sound
import Deferral.Proofs.Table.Edit
import Deferral.Proofs.Execution.Resolving
import Deferral.Proofs.Constant.Names
import Deferral.Proofs.Constant.Settling
import Deferral.Proofs.Constant.Evaluation
import Deferral.Proofs.Constant.Defining
import Deferral.Proofs.Pass.Advance
import Deferral.Proofs.Pass.Overload
import Deferral.Proofs.Execution.Reporting
import Deferral.Proofs.Pass.Signature
import Deferral.Proofs.Pass.Merged
import Deferral.Proofs.Pass.Relation
import Deferral.Proofs.FirstPass.Run
import Deferral.Proofs.FirstPass.Visited
import Deferral.Proofs.FirstPass.Absorbing
import Deferral.Proofs.FirstPass.Declaration
import Deferral.Proofs.FirstPass.Announcing
import Deferral.Proofs.Pass.Use
import Deferral.Proofs.SecondPass.Run
import Deferral.Proofs.SecondPass.Declaration
import Deferral.Proofs.SecondPass.Completing
import Deferral.Proofs.Table.Building
import Deferral.Proofs.Reading.Building
import Deferral.Proofs.SecondPass.Resolved
import Deferral.Proofs.Constant.Fitting
import Deferral.Proofs.Typing.References
import Deferral.Proofs.Scope.Visible
import Deferral.Proofs.Scope.Binding
import Deferral.Proofs.Scope.Open
import Deferral.Proofs.Scope.Signature
import Deferral.Proofs.Scope.QuietFirstPass
import Deferral.Proofs.Scope.FirstPass
import Deferral.Proofs.Scope.Located
import Deferral.Proofs.Scope.SecondPass
import Deferral.Proofs.Scope.Lexical
import Deferral.Proofs.Constant.Computing
import Deferral.Proofs.Constant.Evaluable
import Deferral.Proofs.Typing.Undeferred
import Deferral.Proofs.Scope.Global
import Deferral.Proofs.Phrase.Failing
import Deferral.Proofs.Safety.Furnished
import Deferral.Proofs.Safety.NoInternalFault
import Deferral.Proofs.Constant.Termination
import Deferral.Proofs.Reading.Roundtrip
import Deferral.Proofs.Scanning.Lossless
import Deferral.Proofs.Progress.WrittenOnce
import Deferral.Proofs.Renaming.Hygiene
import Deferral.Proofs.Layout.SecondPass
import Deferral.Proofs.Layout.Order
import Deferral.Proofs.Integrity.Tidy
import Deferral.Proofs.Integrity.Reading
import Deferral.Proofs.Integrity.Signature
import Deferral.Proofs.Integrity.FirstPass
import Deferral.Proofs.Integrity.SecondPass
import Deferral.Proofs.Conversion.Qualification
import Deferral.Proofs.Conversion.Standard
import Deferral.Proofs.Conversion.CommonType
import Deferral.Proofs.Constant.ModularArithmetic
import Deferral.Proofs.Integrity.Integral
import Deferral.Proofs.Constant.Unsigned
import Deferral.Proofs.Conversion.ReferenceBinding
import Deferral.Proofs.Scanning.Spelling
import Deferral.Proofs.Phrase.TypeText
import Deferral.Proofs.Phrase.Unplaced
import Deferral.Proofs.Phrase.ExpressionText
import Deferral.Proofs.Position.Line
import Deferral.Proofs.Position.Caret
import Deferral.Proofs.Extension.Changes
import Deferral.Proofs.Generic.Holders
import Deferral.Proofs.Generic.Reading
import Deferral.Proofs.Generic.TypeParameters
import Deferral.Proofs.Generic.Signature
import Deferral.Proofs.Generic.NotVisited
import Deferral.Proofs.Generic.VisitedOnce
import Deferral.Proofs.Generic.Declaration
import Deferral.Proofs.Generic.Once
import Deferral.Proofs.Scanning.Rescanned
import Deferral.Proofs.Reading.SettingAside
import Deferral.Proofs.Typing.Layers
import Deferral.Proofs.Extension.WrittenInside

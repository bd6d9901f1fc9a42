import LispDialects.Dialect.Catalogue
import LispDialects.Expr.Pretty
import LispDialects.Proofs.CallsByValue
import LispDialects.Proofs.CanonicalText
import LispDialects.Proofs.Carrying
import LispDialects.Proofs.Colours
import LispDialects.Proofs.Completeness
import LispDialects.Proofs.Composition
import LispDialects.Proofs.DerivedRules
import LispDialects.Proofs.Elision
import LispDialects.Proofs.Equality
import LispDialects.Proofs.Evaluation
import LispDialects.Proofs.ExpressionCode
import LispDialects.Proofs.Extension
import LispDialects.Proofs.Frames
import LispDialects.Proofs.Heads
import LispDialects.Proofs.Leaves
import LispDialects.Proofs.Limits
import LispDialects.Proofs.ListAccess
import LispDialects.Proofs.Numerals
import LispDialects.Proofs.Opacity
import LispDialects.Proofs.PartialMerges
import LispDialects.Proofs.Persistence
import LispDialects.Proofs.Predicates
import LispDialects.Proofs.Quotients
import LispDialects.Proofs.Quoting
import LispDialects.Proofs.Reading
import LispDialects.Proofs.Recording
import LispDialects.Proofs.Recursion
import LispDialects.Proofs.Separation
import LispDialects.Proofs.Settling
import LispDialects.Proofs.SpecialForms
import LispDialects.Proofs.StructuralEquality
import LispDialects.Proofs.Termination
import LispDialects.Proofs.Unlabelled
import LispDialects.Settings

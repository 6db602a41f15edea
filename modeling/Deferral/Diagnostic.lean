import Deferral.Source.Position
import Deferral.Text.Quoted

/-!
# Diagnostics

A diagnostic has a cause, the position it is reported at, and the subject that was being worked
on. `Diagnostic.message` is its full text, `Cause.tip?` the advice shown beside it.
-/

namespace Deferral

/-- The subject a diagnostic is reported against; `unit` while none has been named. -/
inductive Subject where
  | unit | varDecl | constDecl | parameter | function | coroutine | classDecl | extension
  | superDecl | typeParameter | type | expression | statement
deriving DecidableEq, Repr, Inhabited

/-- What a subject is called in messages. -/
def Subject.text : Subject → String
  | .unit => "translation unit"
  | .varDecl => "variable declaration"
  | .constDecl => "constant declaration"
  | .parameter => "parameter declaration"
  | .function => "function declaration"
  | .coroutine => "coroutine declaration"
  | .classDecl => "class declaration"
  | .extension => "extension declaration"
  | .superDecl => "super declaration"
  | .typeParameter => "type parameter"
  | .type => "type"
  | .expression => "expression"
  | .statement => "statement"

/-- Why an expression has no constant value. Operators, conversions and values are given by their
texts. -/
inductive EvaluationFault where
  | notConstant (name : String)
  | selfDependent (name : String)
  | overflow
  | divisionByZero
  | call
  | assignment
  | conversion (kind value : String)
  | unary (operator value : String)
  | notBoolean
  | booleanOperator (operator : String)
  | mismatched (left right : String)
  | extent (value : String)
  | described (message : String)
deriving DecidableEq, Repr

namespace EvaluationFault

def message : EvaluationFault → String
  | .notConstant name => "`" ++ name ++ "` is not a constant"
  | .selfDependent name => "the value of `" ++ name ++ "` depends on itself"
  | .overflow => "integer overflow"
  | .divisionByZero => "division by zero"
  | .call => "calls are not constant expressions"
  | .assignment => "assignments are not constant expressions"
  | .conversion kind value => "cannot apply " ++ kind ++ " conversion to " ++ value
  | .unary operator value => "cannot apply " ++ operator ++ " to " ++ value
  | .notBoolean => "expected a boolean operand"
  | .booleanOperator operator => "cannot apply " ++ operator ++ " to booleans"
  | .mismatched left right => "mismatched operands " ++ left ++ " and " ++ right
  | .extent value => "array extent must be a non-negative integer, found " ++ value
  | .described message => message

end EvaluationFault

/-- A broken assumption about the symbol table; well-formed tables raise none of these. -/
inductive InternalFault where
  | noSavedScope (owner : String)
  | noTypeHeld (declaration : Nat)
  | unexpected (subject : Subject) (name : String)
  | deferredOperand
  | described (message : String)
deriving DecidableEq, Repr

namespace InternalFault

def message : InternalFault → String
  | .noSavedScope owner => "no saved scope for " ++ owner
  | .noTypeHeld declaration => "declaration " ++ declaration.repr ++ " has no such type"
  | .unexpected subject name => "unexpected " ++ subject.text ++ " `" ++ name ++ "`"
  | .deferredOperand => "evaluating an unparsed expression"
  | .described message => message

end InternalFault

/-- What is wrong. Tokens, names and types are given by their texts. -/
inductive Cause where
  | unrecognised (token : String)
  | unexpected (token : String)
  | unexpectedDetailed (token detail : String)
  | badNumber (token : String)
  | undeclared (name : String)
  | badExcerpt (excerpt detail : String)
  | unknownType (name : String)
  | notAValue (name subject : String)
  | typeMismatch (expected received : String)
  | tooManyArguments (expected received : Nat)
  | tooFewArguments (expected received : Nat)
  | noConversion (source target : String)
  | noCommonType (left right : String)
  | notEvaluable (fault : EvaluationFault)
  | internal (fault : InternalFault)
deriving DecidableEq, Repr

namespace Cause

/-- The short name of a cause, shown at the head of a report. -/
def name : Cause → String
  | .unrecognised _ => "UnrecognisedToken"
  | .unexpected _ => "UnexpectedToken"
  | .unexpectedDetailed _ _ => "UnexpectedTokenDetailed"
  | .badNumber _ => "NumberParseError"
  | .undeclared _ => "NameError"
  | .badExcerpt _ _ => "SyntaxError"
  | .unknownType _ => "UnknownType"
  | .notAValue _ _ => "InvalidReference"
  | .typeMismatch _ _ => "TypeMatchError"
  | .tooManyArguments _ _ => "UnexpectedArguments"
  | .tooFewArguments _ _ => "MissingArguments"
  | .noConversion _ _ => "ConversionError"
  | .noCommonType _ _ => "IncompatibleTypesError"
  | .notEvaluable _ => "EvaluationError"
  | .internal _ => "ImplementationError"

/-- Whether a cause lies in the grammar of tokens, and not in names, types or values. -/
def isGrammatical : Cause → Bool
  | .unrecognised _ | .unexpected _ | .unexpectedDetailed _ _ | .badNumber _ => true
  | _ => false

/-- The text of a cause on its own. -/
def message : Cause → String
  | .unrecognised token => "unrecognised token: " ++ Text.quoted token
  | .unexpected token => "unexpected token: " ++ Text.quoted token
  | .unexpectedDetailed token detail =>
    "unexpected token (" ++ Text.quoted detail ++ "): " ++ Text.quoted token
  | .badNumber token => "error parsing number: " ++ Text.quoted token
  | .undeclared name => "name " ++ Text.quoted name ++ " is not declared"
  | .badExcerpt excerpt detail => "syntax error in deferred " ++ excerpt ++ ": " ++ detail
  | .unknownType name => "unknown type " ++ name ++ " found"
  | .notAValue name subject => Text.quoted name ++ " names a " ++ subject ++ ", not a value"
  | .typeMismatch expected received =>
    "types do not match: expected " ++ Text.quoted expected ++
      ", received " ++ Text.quoted received
  | .tooManyArguments expected received =>
    "unexpected arguments: expected " ++ expected.repr ++ ", received " ++ received.repr
  | .tooFewArguments expected received =>
    "missing arguments: expected " ++ expected.repr ++ ", received " ++ received.repr
  | .noConversion source target => "cannot convert " ++ source ++ " to " ++ target
  | .noCommonType left right => "incompatible types " ++ left ++ " and " ++ right
  | .notEvaluable fault => "evaluation failed: " ++ fault.message
  | .internal fault => "implementation error: " ++ fault.message

/-- The advice that goes with a cause, if there is any. -/
def tip? : Cause → Option String
  | .unrecognised _ => none
  | .unexpected token => some ("Unexpected token: `" ++ token ++ "`, did you miss a semicolon?")
  | .unexpectedDetailed token detail => some ("Unexpected token: `" ++ token ++ "`, " ++ detail)
  | .badNumber token => some ("Invalid number: `" ++ token ++ "`, is it above the integer limit?")
  | .undeclared name => some ("Name `" ++ name ++ "` is not declared in this scope")
  | .badExcerpt excerpt detail =>
    some ("Could not parse deferred " ++ excerpt ++ ": " ++ detail)
  | .unknownType name => some ("Unknown type `" ++ name ++ "` found")
  | .notAValue name subject =>
    some ("`" ++ name ++ "` names a " ++ subject ++ ", which cannot be used as a value")
  | .typeMismatch expected received =>
    some ("Expected type `" ++ expected ++ "`, received `" ++ received ++ "`")
  | .tooManyArguments expected received | .tooFewArguments expected received =>
    some ("Expected " ++ expected.repr ++ " arguments, received " ++ received.repr)
  | .noConversion source target =>
    some ("No standard conversion from `" ++ source ++ "` to `" ++ target ++ "`")
  | .noCommonType left right =>
    some ("`" ++ left ++ "` and `" ++ right ++ "` have no common arithmetic type")
  | .notEvaluable fault => some ("Not a constant expression: " ++ fault.message)
  | .internal fault => some ("Internal compiler error, please report it: " ++ fault.message)

end Cause

/-- A cause at a position, reported against a subject. -/
structure Diagnostic where
  cause : Cause
  position : Position
  subject : Subject := .unit
deriving DecidableEq, Repr

namespace Diagnostic

/-- Names the subject a diagnostic is reported against. The innermost subject names itself
first and stays. -/
def within (subject : Subject) (d : Diagnostic) : Diagnostic :=
  if d.subject = .unit then { d with subject } else d

theorem within_of_subject_ne {d : Diagnostic} (h : d.subject ≠ .unit) (subject : Subject) :
    d.within subject = d := by
  simp [within, h]

/-- The innermost subject stays. -/
theorem within_within {subject : Subject} (h : subject ≠ .unit) (outer : Subject)
    (d : Diagnostic) : (d.within subject).within outer = d.within subject := by
  apply within_of_subject_ne
  unfold within
  split
  · exact h
  · assumption

/-- The full text of a diagnostic: cause, subject and place. -/
def message (d : Diagnostic) : String :=
  d.cause.message ++ " in " ++ d.subject.text ++ " at " ++ d.position.file ++ ":" ++
    d.position.offset.repr

end Diagnostic

end Deferral

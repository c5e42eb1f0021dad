import ScriptFront.Source.Position
import ScriptFront.Text.Basic

/-!
# Diagnostics

A fault is a cause: what is wrong with a program, with the names and types that
are needed to say so. A diagnostic is a fault at a position. Each fault has a
name, a message, and for some a tip on what to do about it.
-/
namespace ScriptFront

/-- What can be wrong with a program. -/
inductive Fault where
  /-- No token begins with this character. -/
  | unrecognisedToken (token : String)
  /-- A number runs into a name. -/
  | invalidNumberSuffix (suffix : Char)
  /-- A string literal has no closing quote. -/
  | unterminatedString
  /-- Nothing can begin with this token. -/
  | unexpectedToken (token production : String)
  /-- This token cannot follow the one before it. -/
  | unexpectedTokenAfter (token previous production : String)
  /-- Something definite is required in place of this token. -/
  | unexpectedTokenDetailed (token message : String)
  /-- The program ends inside a construct. -/
  | unexpectedEndOfFile (production : String)
  /-- A number literal is out of range. -/
  | numberParseError (token : String)
  /-- No type has this name. -/
  | unknownType (type : String)
  /-- No value can have this type. -/
  | invalidType (type : String)
  | variableAlreadyDeclared (variableName : String)
  | functionAlreadyDeclared (function : String)
  | parameterAlreadyDeclared (parameter function : String)
  | returnValueAlreadyDeclared (function : String)
  | breakOutsideLoop
  | unknownSymbol (symbol : String)
  /-- A variable is used above the line that declares it. -/
  | usedBeforeDeclaration (symbol : String) (line : Nat)
  /-- A variable occurs in its own initializer. -/
  | usedInOwnDefinition (symbol : String)
  | functionUsedAsVariable (symbol : String)
  | notAFunction (symbol : String)
  | operandTypeError (operation expected received : String)
  | unsupportedOperation (operation type : String)
  | argumentCountMismatch (function : String) (expected received : Nat)
  | argumentTypeMatchError (index : Nat) (expected received : String)
  | typeMatchError (expected received : String)
  | conditionTypeError (statement received : String)
  | returnTypeMismatch (expected received : String)
  | missingReturnValue (expected : String)
deriving DecidableEq, Repr

namespace Fault

/-- The name under which a fault is reported. -/
def name : Fault → String
  | unrecognisedToken _ => "UnrecognisedToken"
  | invalidNumberSuffix _ => "InvalidNumberSuffix"
  | unterminatedString => "UnterminatedString"
  | unexpectedToken _ _ => "UnexpectedToken"
  | unexpectedTokenAfter _ _ _ => "UnexpectedToken"
  | unexpectedTokenDetailed _ _ => "UnexpectedTokenDetailed"
  | unexpectedEndOfFile _ => "UnexpectedEndOfFile"
  | numberParseError _ => "NumberParseError"
  | unknownType _ => "UnknownType"
  | invalidType _ => "InvalidType"
  | variableAlreadyDeclared _ => "VariableAlreadyDeclared"
  | functionAlreadyDeclared _ => "FunctionAlreadyDeclared"
  | parameterAlreadyDeclared _ _ => "ParameterAlreadyDeclared"
  | returnValueAlreadyDeclared _ => "ReturnValueAlreadyDeclared"
  | breakOutsideLoop => "BreakOutsideLoop"
  | unknownSymbol _ => "UnknownSymbol"
  | usedBeforeDeclaration _ _ => "UsedBeforeDeclaration"
  | usedInOwnDefinition _ => "UsedInOwnDefinition"
  | functionUsedAsVariable _ => "FunctionUsedAsVariable"
  | notAFunction _ => "NotAFunction"
  | operandTypeError _ _ _ => "OperandTypeError"
  | unsupportedOperation _ _ => "UnsupportedOperation"
  | argumentCountMismatch _ _ _ => "ArgumentCountMismatch"
  | argumentTypeMatchError _ _ _ => "ArgumentTypeMatchError"
  | typeMatchError _ _ => "TypeMatchError"
  | conditionTypeError _ _ => "ConditionTypeError"
  | returnTypeMismatch _ _ => "ReturnTypeMismatch"
  | missingReturnValue _ => "MissingReturnValue"

/-- The sentence that explains a fault. Pieces of the source are quoted. -/
def message : Fault → String
  | unrecognisedToken token =>
      "unknown token found during lexing: " ++ Text.quoted token
  | invalidNumberSuffix suffix => "invalid integral suffix: " ++ Text.quotedChar suffix
  | unterminatedString => "unterminated string literal"
  | unexpectedToken token production =>
      "cannot parse token " ++ Text.quoted token ++ " in " ++ production
  | unexpectedTokenAfter token previous production =>
      "cannot parse token " ++ Text.quoted token ++ " after token " ++
        Text.quoted previous ++ " in " ++ production
  | unexpectedTokenDetailed token message =>
      "unexpected token (" ++ message ++ "): " ++ Text.quoted token
  | unexpectedEndOfFile production => "unexpected end of file in " ++ production
  | numberParseError token => "error parsing number: " ++ Text.quoted token
  | unknownType type => "unknown type: " ++ type
  | invalidType type => "bad type: " ++ type
  | variableAlreadyDeclared variableName => "variable name already in use: " ++ variableName
  | functionAlreadyDeclared function => "function name already in use: " ++ function
  | parameterAlreadyDeclared parameter function =>
      "parameter name " ++ parameter ++ " already in use in function " ++ function
  | returnValueAlreadyDeclared function =>
      "name for return value already in use in function " ++ function
  | breakOutsideLoop => "invalid break statement"
  | unknownSymbol symbol => "unknown symbol '" ++ symbol ++ "'"
  | usedBeforeDeclaration symbol line =>
      "symbol '" ++ symbol ++ "' used before its declaration in line " ++ toString line
  | usedInOwnDefinition symbol => "symbol '" ++ symbol ++ "' is used in its definition"
  | functionUsedAsVariable symbol =>
      "symbol '" ++ symbol ++ "' is a function, but used like a variable"
  | notAFunction symbol => "symbol '" ++ symbol ++ "' is not a function, but used as one"
  | operandTypeError operation expected received =>
      "type mismatch: expected " ++ expected ++ " but found " ++ received ++
        " in operation '" ++ operation ++ "'"
  | unsupportedOperation operation type =>
      "operation '" ++ operation ++ "' is not supported on type '" ++ type ++ "'"
  | argumentCountMismatch function expected received =>
      "function '" ++ function ++ "' requires " ++ toString expected ++
        " arguments, but " ++ toString received ++ " supplied"
  | argumentTypeMatchError index expected received =>
      "argument " ++ toString index ++ " is of type '" ++ received ++
        "' but must be of type '" ++ expected ++ "'"
  | typeMatchError expected received =>
      "attempting to assign a '" ++ received ++ "' to a variable of type '" ++
        expected ++ "'"
  | conditionTypeError statement received =>
      "result type of " ++ statement ++ "-condition must be 'bool' but is '" ++
        received ++ "'"
  | returnTypeMismatch expected received =>
      "expected return value of type '" ++ expected ++ "' but found '" ++ received ++ "'"
  | missingReturnValue expected => "expected return value of type '" ++ expected ++ "'"

/-- What to do about a fault, where there is something to say. -/
def tip? : Fault → Option String
  | invalidNumberSuffix _ => some "separate the number from the following name"
  | unterminatedString => some "add the closing `\"`"
  | unexpectedToken _ _ | unexpectedTokenAfter _ _ _ =>
      some "did you miss a semicolon or a bracket?"
  | unexpectedEndOfFile _ => some "the program ends in the middle of a construct"
  | numberParseError _ => some "is it above the integer limit?"
  | invalidType _ => some "`void` can only be used as a return type"
  | breakOutsideLoop => some "`break` may only appear inside a `while` body"
  | usedBeforeDeclaration _ _ => some "move the declaration above its first use"
  | functionUsedAsVariable _ => some "did you mean to call it?"
  | missingReturnValue expected => some ("return a value of type `" ++ expected ++ "`")
  | _ => none

/-- The fault is found before there are tokens. -/
def isLexical : Fault → Bool
  | unrecognisedToken _ | invalidNumberSuffix _ | numberParseError _
  | unterminatedString => true
  | _ => false

end Fault

structure Diagnostic where
  fault : Fault
  position : Position
deriving DecidableEq, Repr

namespace Diagnostic

/-- The position and the message. -/
def text (d : Diagnostic) : String :=
  d.position.text ++ " " ++ d.fault.message

instance : ToString Diagnostic := ⟨text⟩

end Diagnostic

end ScriptFront

import TableSchema.Definition.FieldType
import TableSchema.Token.Basic
import TableSchema.Table
import TableSchema.Diagnostic

/-!
What can be wrong with a definition, and the messages about it.

A refusal has a place, unless the input itself cannot be read.
-/

namespace TableSchema.Definition

/-- The declarations of the settings section. -/
inductive Setting where
  | table
  | link
deriving DecidableEq, Repr

/-- The keyword of a setting. -/
def Setting.keyword : Setting → String
  | table => "CLASS"
  | link => "LINK"

/-- One of the two ends of a link. -/
inductive Side where
  | first
  | second
deriving DecidableEq, Repr

/-- The word for an end of a link. -/
def Side.name : Side → String
  | first => "first"
  | second => "second"

/-- The keyword between the local and the foreign fields of a foreign key. -/
def constrainsTo : String := "constrainsTo"

/-- How a line can break the rules of its section. -/
inductive Problem where
  | headerExpected (received : Token)
  | classMissing
  | classMissingBefore
  | classRepeated
  | classNameExpected (received : Token)
  | linkBeforeClass
  | linkRepeated
  | linkedNameExpected (side : Side) (received : Token)
  | settingExpected
  | afterSetting (setting : Setting) (received : Token)
  | typeExpected
  | typeUnknown
  | lengthForbidden (type : FieldType)
  | openParenExpected
  | lengthExpected
  | precisionExpected
  | tooLarge (number : Token)
  | closeParenExpected
  | flagExpected (received : Token)
  | nameUnexpected
  | fieldPartUnexpected (received : Token)
  | fieldNameExpected
  | expressionExpected
  | taken (clash : Clash)
  | indexNameExpected
  | indexFieldExpected
  | indexEmpty (index : String)
  | indexRepeated (index domain : String)
  | constrainsToExpected
  | localFieldExpected
  | localFieldMissing
  | foreignFieldExpected (received : Token)
  | foreignTableDiffers (expected : String)
  | foreignFieldMissing
deriving DecidableEq, Repr

namespace Problem

/-- The message of a problem. -/
def message : Problem → String
  | headerExpected received =>
    "Expecting a section header, received " ++ received.display ++ "."
  | classMissing => "Expecting a CLASS declaration in [Settings]."
  | classMissingBefore => "Expecting a CLASS declaration in [Settings] before this section."
  | classRepeated => "CLASS may only be declared once per file."
  | classNameExpected received =>
    "Expected a class name, received " ++ received.display ++ "."
  | linkBeforeClass => "LINK must follow a CLASS declaration."
  | linkRepeated => "LINK may only be declared once per file."
  | linkedNameExpected side received =>
    "Expected the " ++ side.name ++ " linked class name, received " ++ received.display ++ "."
  | settingExpected => "Unexpected token, expected CLASS or LINK."
  | afterSetting setting received =>
    "Unexpected " ++ received.display ++ " after " ++ setting.keyword ++ " declaration."
  | typeExpected => "Expecting type."
  | typeUnknown =>
    "Unhandled type. Expected DOUBLE, STRING, VSTRING, LONG, INTEGER, TIMESTAMP, " ++
      "BLOB, BOOLEAN or DATE."
  | lengthForbidden type => type.keyword ++ " does not take a length."
  | openParenExpected => "Expecting open paren."
  | lengthExpected => "Numeric length expected."
  | precisionExpected => "Expecting precision field."
  | tooLarge number => number.display ++ " is too large."
  | closeParenExpected => "Expecting close paren."
  | flagExpected received =>
    "Unexpected " ++ received.display ++ ", expected a flag, a name or a comment."
  | nameUnexpected =>
    "Unexpected word, a field takes a field name and an optional column name."
  | fieldPartUnexpected received => "Unexpected " ++ received.display ++ "."
  | fieldNameExpected => "Expecting a field name."
  | expressionExpected => "VSTRING requires its SQL expression as a comment."
  | taken clash => clash.message
  | indexNameExpected => "Expecting an index name."
  | indexFieldExpected => "Expecting a field name."
  | indexEmpty index => "Index '" ++ index ++ "' must list at least one field."
  | indexRepeated index domain =>
    "index '" ++ index ++ "' is declared more than once in '" ++ domain ++ "'"
  | constrainsToExpected => "Expecting '" ++ constrainsTo ++ "'."
  | localFieldExpected => "Expecting a local field name."
  | localFieldMissing => "Expecting a local field name before '" ++ constrainsTo ++ "'."
  | foreignFieldExpected received =>
    "Expecting <Table>.<field>, received " ++ received.display ++ "."
  | foreignTableDiffers expected => "All foreign fields must belong to '" ++ expected ++ "'."
  | foreignFieldMissing => "Expecting <Table>.<field> after '" ++ constrainsTo ++ "'."

end Problem

/-- Why a definition is refused. -/
inductive Refusal where
  | lexical (message : String) (place : Place)
  | grammar (problem : Problem) (place : Place)
  | undeclared (index field domain : String) (place : Place)
  | unreadable (failure : ReadFailure)
deriving DecidableEq, Repr

/-- The diagnostic of a refusal in a named file. -/
def Refusal.diagnostic (file : String) : Refusal → Diagnostic
  | lexical message place => ⟨.lex, message, some ⟨file, place⟩⟩
  | grammar problem place => ⟨.grammar, problem.message, some ⟨file, place⟩⟩
  | undeclared index field domain place =>
    ⟨.reference, "index '" ++ index ++ "' names field '" ++ field ++
      "' which is not declared in '" ++ domain ++ "'", some ⟨file, place⟩⟩
  | unreadable failure => ⟨.io, failure.report file, none⟩

end TableSchema.Definition

import TableQuery.Token
import TableQuery.Clause

/-! Why a command is refused, and the text that says so. -/
namespace TableQuery

/-- What is wrong with the form of a command. -/
inductive SyntaxFault
  | openQuote (quote : Char)
  | unsupported (c : Char)
  | secondPoint
  | unknownCommand (found : Token)
  | afterStatement (found : Token)
  | expected (wanted found : Token)
  | expectedIdent (found : Token)
  | expectedValue (found : Token)
  | expectedComparator (found : Token)
  | notInWhere (found : Token)
  | unbalanced
  | expectedComparison (found : ClausePart)
  | incompleteClause
  | notInClause (found : ClausePart)
  | limit (value : Value)
  | fieldCount (fields values : Nat)
  | path (text : String)
  deriving DecidableEq

/-- What is wrong with the description of a schema. -/
inductive SchemaFault
  | form (fault : SyntaxFault)
  | missingDefault (field : String)
  | unknownAttribute (word field : String)
  | declaredTwice (field : String)
  deriving DecidableEq

inductive QueryError
  | malformed (fault : SyntaxFault)
  | unknownComparator (symbol : String)
  | unresolvedName (name : String)
  | unresolvedPosition (given : Nat)
  | unusedPositions (left : Nat)
  | unknownDatastore (name : String)
  | invalidSchema (fault : SchemaFault)
  deriving DecidableEq

def SyntaxFault.message : SyntaxFault → String
  | .openQuote quote => "unterminated " ++ quote.toString ++ " literal"
  | .unsupported c => "character " ++ Text.quotedChar c ++ " is not supported"
  | .secondPoint => "multiple dots are not allowed for a float"
  | .unknownCommand found => "unknown command " ++ found.tagged
  | .afterStatement found => "unexpected token after statement: " ++ found.tagged
  | .expected wanted found => "expected " ++ wanted.tagged ++ ", found " ++ found.tagged
  | .expectedIdent found => "expected identifier, found " ++ found.tagged
  | .expectedValue found => "expected a value, found " ++ found.tagged
  | .expectedComparator found => "expected a comparison operator, found " ++ found.tagged
  | .notInWhere found => "unexpected " ++ found.tagged ++ " in WHERE clause"
  | .unbalanced => "unbalanced parentheses in WHERE clause"
  | .expectedComparison found => "expected a comparison, found " ++ found.tagged
  | .incompleteClause => "incomplete WHERE clause"
  | .notInClause found => "unexpected " ++ found.tagged ++ " in WHERE clause"
  | .limit value => "invalid LIMIT " ++ value.display
  | .fieldCount fields values =>
    fields.repr ++ " field(s) but " ++ values.repr ++ " value(s) in INSERT"
  | .path text => "invalid table path " ++ Text.quotedString text

/-- The text of a fault in the form of a command. -/
def malformedMessage (fault : SyntaxFault) : String := "Malformed query: " ++ fault.message

def SchemaFault.message : SchemaFault → String
  | .form fault => malformedMessage fault
  | .missingDefault field => "missing default value for " ++ Text.quotedString field
  | .unknownAttribute word field =>
    "unknown attribute " ++ Text.quotedString word ++ " on field " ++ Text.quotedString field
  | .declaredTwice field => "field " ++ Text.quotedString field ++ " is declared twice"

def QueryError.message : QueryError → String
  | .malformed fault => malformedMessage fault
  | .unknownComparator symbol => "Unknown comparator: " ++ symbol
  | .unresolvedName name => "Unresolved substitution: :" ++ name
  | .unresolvedPosition given =>
    "Unresolved substitution: more ? placeholders than the " ++ given.repr ++ " positional value(s)"
  | .unusedPositions left => left.repr ++ " positional substitution value(s) left unused"
  | .unknownDatastore name => "Unknown datastore: " ++ name
  | .invalidSchema fault => "Invalid schema: " ++ fault.message

end TableQuery

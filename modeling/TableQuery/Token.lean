import TableQuery.Comparator
import TableQuery.Value.Display

/-! The tokens of the query language. -/
namespace TableQuery

/-- The reserved words. `ORDER BY`, `INSERT INTO` and `DELETE FROM` are one word each. -/
inductive Keyword
  | select | fromTable | whereRows | and | or | orderBy | asc | desc | limit
  | insertInto | values | update | setFields | deleteFrom
  deriving DecidableEq

namespace Keyword

/-- The keyword's name in messages. -/
def name : Keyword → String
  | .select => "Select"
  | .fromTable => "From"
  | .whereRows => "Where"
  | .and => "And"
  | .or => "Or"
  | .orderBy => "OrderBy"
  | .asc => "Asc"
  | .desc => "Desc"
  | .limit => "Limit"
  | .insertInto => "InsertInto"
  | .values => "Values"
  | .update => "Update"
  | .setFields => "Set"
  | .deleteFrom => "DeleteFrom"

/-- The keyword that a single word in capitals spells. -/
def ofWord? (word : String) : Option Keyword :=
  match word with
  | "SELECT" => some .select
  | "FROM" => some .fromTable
  | "WHERE" => some .whereRows
  | "AND" => some .and
  | "OR" => some .or
  | "ASC" => some .asc
  | "DESC" => some .desc
  | "LIMIT" => some .limit
  | "VALUES" => some .values
  | "UPDATE" => some .update
  | "SET" => some .setFields
  | _ => none

/-- The keyword that a word in capitals can begin, and the second word that completes it. -/
def compound? (word : String) : Option (String × Keyword) :=
  match word with
  | "ORDER" => some ("BY", .orderBy)
  | "INSERT" => some ("INTO", .insertInto)
  | "DELETE" => some ("FROM", .deleteFrom)
  | _ => none

end Keyword

inductive Token
  | keyword (k : Keyword)
  | ident (word : String)
  | number (n : Int64)
  | float (x : Binary64)
  | op (c : Comparator)
  | leftParen | rightParen | comma | dot | semicolon | star
  | eof
  deriving DecidableEq

/-- The token as messages show it. -/
def Token.tagged : Token → String
  | .keyword k => k.name
  | .ident word => "Ident(" ++ Text.quotedString word ++ ")"
  | .number n => "Number(" ++ (Value.int n).display ++ ")"
  | .float x => "FloatNumber(" ++ x.show taggedLayout ++ ")"
  | .op c => "Op(" ++ c.name ++ ")"
  | .leftParen => "LeftParen"
  | .rightParen => "RightParen"
  | .comma => "Comma"
  | .dot => "Dot"
  | .semicolon => "Semicolon"
  | .star => "Star"
  | .eof => "Eof"

end TableQuery

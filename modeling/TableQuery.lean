import TableQuery.Main
import TableQuery.Proofs.Clause.Readings
import TableQuery.Proofs.Clause.Rounds
import TableQuery.Proofs.Console
import TableQuery.Proofs.Console.Protocol
import TableQuery.Proofs.Database.Counting
import TableQuery.Proofs.Database.Independence
import TableQuery.Proofs.Database.Insertion
import TableQuery.Proofs.Database.Integers
import TableQuery.Proofs.Database.Limits
import TableQuery.Proofs.Database.Quoting
import TableQuery.Proofs.Database.Restore
import TableQuery.Proofs.Literal.Marks
import TableQuery.Proofs.Schema.Declared
import TableQuery.Proofs.Schema.Description
import TableQuery.Proofs.Schema.Legibility
import TableQuery.Proofs.Statement.Columns
import TableQuery.Proofs.Statement.Derivation
import TableQuery.Proofs.Statement.Shown
import TableQuery.Proofs.Statement.Substitution
import TableQuery.Proofs.Statement.Words
import TableQuery.Proofs.Table.Condition
import TableQuery.Proofs.Table.Repetition
import TableQuery.Proofs.Text.OneLine
import TableQuery.Proofs.Value.Consistency
import TableQuery.Proofs.Value.Reading

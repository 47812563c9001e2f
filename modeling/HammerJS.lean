import HammerJS.Procs.Logic
import HammerJS.Reflect.Token
import HammerJS.Reflect.Lex
import HammerJS.Reflect.Statements
import HammerJS.Reflect.Convert
import HammerJS.Procs.Total
import HammerJS.Reflect.Failure
import HammerJS.Reflect.StatementsSafety
import HammerJS.Syntax.StatementsParsed
import HammerJS.Reflect.Exact
import HammerJS.Reflect.LexerBounds
import HammerJS.Runs.Termination
import HammerJS.Runs.LexProtocol
import HammerJS.Runs.Stacks
import HammerJS.Spelling.Numbers
import HammerJS.Runs.Numbers
import HammerJS.Fs.Stream
import HammerJS.Fs.Utf8
import HammerJS.Fs.Reading
import HammerJS.Procs.Reaches
import HammerJS.Reflect.Outcomes
import HammerJS.Spelling.Strings
import HammerJS.Runs.NewBinding
import HammerJS.Runs.IfStatements
import HammerJS.Runs.Lists
import HammerJS.Runs.Assignments
import HammerJS.Spelling.StringLiterals
import HammerJS.Spelling.NumberLiterals
import HammerJS.Memory.ParserArena
import HammerJS.Runs.AllowsIn
import HammerJS.Runs.Reports
import HammerJS.Runs.ForHeaders
import HammerJS.Spelling.Identifiers
import HammerJS.Runs.Entries
import HammerJS.Spelling.RegExps
import HammerJS.Syntax.Positions
import HammerJS.Runs.RegExps
import HammerJS.Runs.InOperators
import HammerJS.Runs.LiteralTexts
import HammerJS.Runs.Names
import HammerJS.Syntax.Shapes
import HammerJS.Runs.Trees
import HammerJS.Syntax.Printing
import HammerJS.Procs.Attains
import HammerJS.Reflect.Accepts
import HammerJS.Syntax.Derivations
import HammerJS.Syntax.Arrives
import HammerJS.Syntax.OperandsAccepted
import HammerJS.Syntax.PrimariesAccepted
import HammerJS.Syntax.ExpressionsAccepted
import HammerJS.Syntax.StatementsAccepted
import HammerJS.Syntax.DeclarationsAccepted
import HammerJS.Syntax.Accepted
import HammerJS.Runs.Completeness
import HammerJS.Runs.Targets
import HammerJS.Runs.Operators

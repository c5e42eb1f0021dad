import ScriptFront.Main
import ScriptFront.Proofs.Parsing.Recognition
import ScriptFront.Proofs.Program.Anchored
import ScriptFront.Proofs.Program.Backtracking
import ScriptFront.Proofs.Program.CleanChecks
import ScriptFront.Proofs.Program.DeclaredBefore
import ScriptFront.Proofs.Program.Deletions
import ScriptFront.Proofs.Program.FormOrder
import ScriptFront.Proofs.Program.Identified
import ScriptFront.Proofs.Program.Independent
import ScriptFront.Proofs.Program.Nodes
import ScriptFront.Proofs.Program.Ranges
import ScriptFront.Proofs.Program.Rechecked
import ScriptFront.Proofs.Program.Resolved
import ScriptFront.Proofs.Program.RoundTrip
import ScriptFront.Proofs.Program.SameScopes
import ScriptFront.Proofs.Program.SameWords
import ScriptFront.Proofs.Program.Silence
import ScriptFront.Proofs.Program.Typing
import ScriptFront.Proofs.Program.Void
import ScriptFront.Proofs.Source.Offsets
import ScriptFront.Proofs.Stmt.Calls
import ScriptFront.Proofs.SymbolTable.Influence
import ScriptFront.Proofs.SymbolTable.Representation
import ScriptFront.Proofs.Token.Culprits
import ScriptFront.Proofs.Token.Integers
import ScriptFront.Proofs.Token.Printed
import ScriptFront.Proofs.Token.Strings
import ScriptFront.Proofs.TypeTable.Registration
import ScriptFront.Program.Visits

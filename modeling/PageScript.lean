import PageScript.Main
import PageScript.Proofs.Runner.Operations
import PageScript.Proofs.Runner.Spanning
import PageScript.Proofs.Store.Calls
import PageScript.Proofs.Store.Nested
import PageScript.Proofs.Reread
import PageScript.Proofs.Store.Aged
import PageScript.Proofs.Runner.Lifetimes
import PageScript.Proofs.Sheets
import PageScript.Proofs.Store.Folders
import PageScript.Proofs.Store.Served
import PageScript.Proofs.Store.Related
import PageScript.Proofs.Runner.Related
import PageScript.Proofs.Runner.Interchanged
import PageScript.Proofs.Store.Apart
import PageScript.Proofs.Store.Listed
import PageScript.Proofs.Runner.Identities
import PageScript.Proofs.CommandLine.Commands
import PageScript.Proofs.CommandLine.Refusals
import PageScript.Proofs.Text.Lowered
import PageScript.Proofs.Text.Pattern
import PageScript.Proofs.Script.Rules
import PageScript.Proofs.Script.Watermarks
import PageScript.Proofs.Script.Requests
import PageScript.Proofs.Script.Rounding
import PageScript.Proofs.Script.Prices
import PageScript.Proofs.Console
import PageScript.Proofs.Panel
import PageScript.Proofs.Charged
import PageScript.Proofs.Locks
import PageScript.Proofs.Grammar
import PageScript.Proofs.Script.Fallback
import PageScript.Proofs.Script.Cases

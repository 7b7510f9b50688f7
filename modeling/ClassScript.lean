import ClassScript.Main
import ClassScript.Proofs.Binding.Addresses
import ClassScript.Proofs.Binding.Numbers
import ClassScript.Proofs.Execution.Parsed
import ClassScript.Proofs.Grammar.Acceptance
import ClassScript.Proofs.Grammar.FirstFault
import ClassScript.Proofs.Grammar.InPlace
import ClassScript.Proofs.Grammar.Joining
import ClassScript.Proofs.Grammar.Listing
import ClassScript.Proofs.Likeness.Erasure
import ClassScript.Proofs.Session.Chains
import ClassScript.Proofs.Session.Dispatch
import ClassScript.Proofs.Session.Distances
import ClassScript.Proofs.Session.ErrorLines
import ClassScript.Proofs.Session.Globals
import ClassScript.Proofs.Session.Initializers
import ClassScript.Proofs.Session.Joining
import ClassScript.Proofs.Session.Loops
import ClassScript.Proofs.Session.Receivers
import ClassScript.Proofs.Session.Rejected
import ClassScript.Proofs.Session.Renaming
import ClassScript.Proofs.Session.Returns
import ClassScript.Proofs.Session.StaticScoping
import ClassScript.Proofs.Session.Truncated
import ClassScript.Proofs.Token.Lines
import ClassScript.Proofs.Token.NumberTexts
import ClassScript.Proofs.Token.Respacing
import ClassScript.Proofs.Token.Tiling
import ClassScript.Scope.Text

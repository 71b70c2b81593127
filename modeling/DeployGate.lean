import DeployGate.Main
import DeployGate.Files.Tree
import DeployGate.Ocl.Session
import DeployGate.Proofs.Ocl.Acceptance
import DeployGate.Proofs.Ocl.EarliestError
import DeployGate.Proofs.Ocl.TreeWriting
import DeployGate.Proofs.Ocl.OpaqueHeredoc
import DeployGate.Proofs.Ocl.HeredocSearch
import DeployGate.Proofs.Ocl.Session
import DeployGate.Proofs.Ocl.ListSeparators
import DeployGate.Proofs.Process.Verdict
import DeployGate.Proofs.RulesFile.Overlay
import DeployGate.Proofs.RulesFile.CountForm
import DeployGate.Proofs.RulesFile.LoadedRules
import DeployGate.Proofs.CommandLine.Ending
import DeployGate.Proofs.CommandLine.Agreement
import DeployGate.Proofs.CommandLine.FailClosed
import DeployGate.Proofs.CommandLine.Report
import DeployGate.Proofs.CommandLine.VerdictLine
import DeployGate.Proofs.Ocl.Layout
import DeployGate.Proofs.Ocl.LineEndStyle
import DeployGate.Proofs.Ocl.IndentedHeredoc
import DeployGate.Proofs.Ocl.NodeLines
import DeployGate.Proofs.Process.EffectiveChildren
import DeployGate.Proofs.CommandLine.FileForm

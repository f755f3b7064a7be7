import CleanDiff.CommandLine.Reader
import CleanDiff.Config.Load
import CleanDiff.Disk.Prepare
import CleanDiff.Disk.WorkTree
import CleanDiff.Grammar.Pattern
import CleanDiff.Json.Reader
import CleanDiff.Main
import CleanDiff.Proofs.Accounting
import CleanDiff.Proofs.AtomicWrite
import CleanDiff.Proofs.BlockEnd
import CleanDiff.Proofs.CommandLine
import CleanDiff.Proofs.CompleteTokens
import CleanDiff.Proofs.Conversion
import CleanDiff.Proofs.Coverage
import CleanDiff.Proofs.Delimiter
import CleanDiff.Proofs.DirectoryWalk
import CleanDiff.Proofs.DryRun
import CleanDiff.Proofs.ExtensionTable
import CleanDiff.Proofs.FixedPoint
import CleanDiff.Proofs.Following
import CleanDiff.Proofs.Independence
import CleanDiff.Proofs.JsonText
import CleanDiff.Proofs.Leading
import CleanDiff.Proofs.LineAccuracy
import CleanDiff.Proofs.LineBreak
import CleanDiff.Proofs.LineSlices
import CleanDiff.Proofs.Lines
import CleanDiff.Proofs.Meaning
import CleanDiff.Proofs.Neutral
import CleanDiff.Proofs.NodeChange
import CleanDiff.Proofs.NodeTree
import CleanDiff.Proofs.OneLine
import CleanDiff.Proofs.Overrides
import CleanDiff.Proofs.PatternTokens
import CleanDiff.Proofs.ReformattedLine
import CleanDiff.Proofs.Reformatting
import CleanDiff.Proofs.RelativePath
import CleanDiff.Proofs.ReportText
import CleanDiff.Proofs.Reversions
import CleanDiff.Proofs.TemporaryFile
import CleanDiff.Proofs.TokenCut
import CleanDiff.Proofs.TokenSlices
import CleanDiff.Proofs.TreeFrame
import CleanDiff.Proofs.Utf8
import CleanDiff.Report.Render
import CleanDiff.Repository.Commit
import CleanDiff.Verdict
import CleanDiff.Scenario
import CleanDiff.WorkTree.Memory

import SuiteMetrics.Analysis.Saved
import SuiteMetrics.Files.Content
import SuiteMetrics.Main
import SuiteMetrics.Progress
import SuiteMetrics.Proofs.GroupCounts
import SuiteMetrics.Proofs.Instruments
import SuiteMetrics.Proofs.KeyColumns
import SuiteMetrics.Proofs.KeyLength
import SuiteMetrics.Proofs.MergePlan
import SuiteMetrics.Proofs.ReadersAgree
import SuiteMetrics.Proofs.RuleSums
import SuiteMetrics.Proofs.TableRoundTrip
import SuiteMetrics.Proofs.Truncation
import SuiteMetrics.Proofs.UnusableFiles
import SuiteMetrics.Settings.Sample
import SuiteMetrics.Proofs.AcceptedRecords
import SuiteMetrics.Proofs.TransparentNodes
import SuiteMetrics.Proofs.OutermostDeclarations
import SuiteMetrics.Proofs.MovedSearch
import SuiteMetrics.Proofs.WordPattern
import SuiteMetrics.Proofs.MovedDatasets
import SuiteMetrics.Proofs.CutMessages
import SuiteMetrics.Proofs.NoisyOutput
import SuiteMetrics.Proofs.OverflowingSums
import SuiteMetrics.Proofs.TableShape
import SuiteMetrics.Proofs.WholeNumbers
import SuiteMetrics.Proofs.AlignedColumns
import SuiteMetrics.Proofs.LineCounts
import SuiteMetrics.Proofs.RectangularTables
import SuiteMetrics.Proofs.CommentLines
import SuiteMetrics.Proofs.SourceOrder
import SuiteMetrics.Proofs.StackWalk
import SuiteMetrics.Proofs.CursorConversion
import SuiteMetrics.Proofs.DistinctNames
import SuiteMetrics.Proofs.SettingLayers

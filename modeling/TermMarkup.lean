import TermMarkup.Text.Brace
import TermMarkup.Text.Slice
import TermMarkup.Sgr.Code
import TermMarkup.Tag
import TermMarkup.Token
import TermMarkup.Color.Spec
import TermMarkup.Theme.Load
import TermMarkup.Stack
import TermMarkup.Run
import TermMarkup.Measure.Visible
import TermMarkup.Layout
import TermMarkup.LineBuilder
import TermMarkup.CommandLine.Program
import TermMarkup.Main
import TermMarkup.Proofs.WrapPen
import TermMarkup.Proofs.WrapLines
import TermMarkup.Proofs.WideLines
import TermMarkup.Proofs.LineEnds
import TermMarkup.Proofs.Failures
import TermMarkup.Proofs.Fitting
import TermMarkup.Proofs.Pieces
import TermMarkup.Proofs.CodeText
import TermMarkup.Proofs.Rewrap
import TermMarkup.Proofs.Greedy
import TermMarkup.Proofs.FewestLines
import TermMarkup.Proofs.Groups
import TermMarkup.Proofs.Nesting
import TermMarkup.Proofs.ShortText
import TermMarkup.Proofs.Newlines
import TermMarkup.Proofs.Recast
import TermMarkup.Proofs.Regrouping
import TermMarkup.Proofs.Paragraphs
import TermMarkup.Proofs.Separation
import TermMarkup.Proofs.MarkForms
import TermMarkup.Proofs.Literals
import TermMarkup.Proofs.CombinedScan
import TermMarkup.Proofs.CodeRemoval
import TermMarkup.Proofs.VisibleText
import TermMarkup.Proofs.RenderNeutral
import TermMarkup.Proofs.Rounding
import TermMarkup.Proofs.ColorFaults
import TermMarkup.Proofs.FaultKinds
import TermMarkup.Proofs.MarkOffsets
import TermMarkup.Proofs.Deletion
import TermMarkup.Proofs.TagHeads
import TermMarkup.Proofs.CleanText
import TermMarkup.Proofs.LineHeads
import TermMarkup.Proofs.Braces
import TermMarkup.Proofs.Escaping
import TermMarkup.Proofs.EscapedWrap
import TermMarkup.Proofs.StylePairs
import TermMarkup.Proofs.CompoundCodes
import TermMarkup.Proofs.StyleWords
import TermMarkup.Proofs.RoleStyles
import TermMarkup.Proofs.Occurrences
import TermMarkup.Proofs.InPlace
import TermMarkup.Proofs.ColorWords
import TermMarkup.Proofs.ColorDigits
import TermMarkup.Proofs.TagRanges
import TermMarkup.Proofs.LineWidths
import TermMarkup.Proofs.ColorLanguage
import TermMarkup.Proofs.FilledLines
import TermMarkup.Proofs.InputLines
import TermMarkup.Proofs.KeptRuns
import TermMarkup.Proofs.TrailingBlanks
import TermMarkup.Proofs.TagPairs
import TermMarkup.Proofs.BlottedCodes
import TermMarkup.Proofs.ReplacedRange
import TermMarkup.Proofs.ThemeLoading
import TermMarkup.Proofs.StackShape
import TermMarkup.Proofs.WordForms

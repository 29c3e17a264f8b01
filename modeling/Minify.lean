import Minify.Main
import Minify.FileStore.Disk
import Minify.Options.Text
import Minify.Proofs.PositionalTexts
import Minify.Proofs.Numerals
import Minify.Proofs.EndingLoops
import Minify.Proofs.CanonicalNumerals
import Minify.Proofs.PayloadText
import Minify.Proofs.FirstSeen
import Minify.Proofs.WordRuns
import Minify.Proofs.ByteSize
import Minify.Proofs.PlainWords
import Minify.Proofs.PackingDecodes
import Minify.Proofs.LexerRun
import Minify.Proofs.ScopePaths
import Minify.Proofs.TrackerMoves
import Minify.Proofs.FreshNames
import Minify.Proofs.RecordedNames
import Minify.Proofs.PrivateRenaming
import Minify.Proofs.ShortNaming
import Minify.Proofs.NewTexts
import Minify.Proofs.CaptureFree
import Minify.Proofs.NameSearch
import Minify.Proofs.TrackerStack
import Minify.Proofs.SealedScopes
import Minify.Proofs.ClosingBrace
import Minify.Proofs.LeftBehind
import Minify.Proofs.ClosingBrackets
import Minify.Proofs.SitesInScript
import Minify.Proofs.BraceScopes
import Minify.Proofs.NumberTexts
import Minify.Proofs.WordOffsets
import Minify.Proofs.ChunkPlaces
import Minify.Proofs.LexedText
import Minify.Proofs.LoopPrograms
import Minify.Proofs.HoistedNames
import Minify.Proofs.TreeShape
import Minify.Proofs.LoopReading
import Minify.Proofs.LoopScopes
import Minify.Proofs.LoopFunction
import Minify.Proofs.TokenEnds
import Minify.Proofs.Lexemes
import Minify.Proofs.ReadBack
import Minify.Proofs.PrivateNumbering
import Minify.Proofs.ExposedScopes
import Minify.Proofs.RenamedTokens
import Minify.Proofs.MapDecoding
import Minify.Proofs.JoinedScripts
import Minify.Proofs.FileStarts
import Minify.Proofs.BundleMaps
import Minify.Proofs.PackedLookup
import Minify.Proofs.FirstLegalNames
import Minify.Proofs.LayoutFree
import Minify.Proofs.DeclarationSlot
import Minify.Proofs.Shifts
import Minify.Proofs.WaitingScopes
import Minify.Proofs.Exits
import Minify.Proofs.HomeScopes
import Minify.Proofs.DeclaredNames
import Minify.Proofs.FunctionNames
import Minify.Proofs.Expressions
import Minify.Proofs.ExpressionBrackets
import Minify.Proofs.ExpressionReading
import Minify.Proofs.ArrowParameters
import Minify.Proofs.ReadExpressions
import Minify.Proofs.FunctionReading
import Minify.Proofs.ArrowScopes
import Minify.Proofs.CaseStatements
import Minify.Proofs.CaseReading
import Minify.Proofs.LayoutHeads
import Minify.Proofs.LineStatements
import Minify.Proofs.BodiesKept
import Minify.Proofs.BracketGrammar
import Minify.Proofs.BracketPairs
import Minify.Proofs.InsertedSemicolons
import Minify.Proofs.NameExchange
import Minify.Proofs.PropertyWords
import Minify.Proofs.SpelledNames
import Minify.Proofs.TemplateNesting
import Minify.Proofs.TextBytes
import Minify.Proofs.ByteRuns
import Minify.Proofs.FilePositions
import Minify.Proofs.PayloadFormat
import Minify.Proofs.TightScripts
import Minify.Proofs.PackedScripts
import Minify.Proofs.HeadingLines
import Minify.Proofs.NumberLiterals
import Minify.Proofs.OptionsReading
import Minify.Proofs.FailingRuns
import Minify.Proofs.DiskSteps
import Minify.Proofs.SavedFiles
import Minify.Proofs.BundleWrites

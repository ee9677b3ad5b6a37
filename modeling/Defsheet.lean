import Defsheet.Main
import Defsheet.Proofs.Account
import Defsheet.Proofs.BatchOrder
import Defsheet.Proofs.CapturedNames
import Defsheet.Proofs.DecimalTexts
import Defsheet.Proofs.DefaultValues
import Defsheet.Proofs.Effects
import Defsheet.Proofs.Erasure
import Defsheet.Proofs.ExactIndexes
import Defsheet.Proofs.FirstWins
import Defsheet.Proofs.GeneratedText
import Defsheet.Proofs.MarkerComments
import Defsheet.Proofs.NamePasses
import Defsheet.Proofs.NamesInComments
import Defsheet.Proofs.NothingLost
import Defsheet.Proofs.Projection
import Defsheet.Proofs.ProviderPaths
import Defsheet.Proofs.ProviderText
import Defsheet.Proofs.Recovery
import Defsheet.Proofs.RepeatWarnings
import Defsheet.Proofs.Running
import Defsheet.Proofs.Settling
import Defsheet.Proofs.SharedDirectory
import Defsheet.Proofs.SiblingFiles
import Defsheet.Proofs.SourceOrder
import Defsheet.Proofs.StatementOutcomes
import Defsheet.Proofs.Stepping
import Defsheet.Proofs.TypeIdBlocks
import Defsheet.Proofs.WordBreaks
import Defsheet.Proofs.WritingOrder
import Defsheet.Proofs.WrittenIdents
import Defsheet.Proofs.WrittenTokens

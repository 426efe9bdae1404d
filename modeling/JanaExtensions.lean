import JanaExtensions.Consolidation
import JanaExtensions.EventSource
import JanaExtensions.FADCCodec
import JanaExtensions.HelicityPublication
import JanaExtensions.TriggerSeparation
import JanaExtensions.EventIsolation
import JanaExtensions.Attribution
import JanaExtensions.BlockStructure
import JanaExtensions.RunSelection
import JanaExtensions.EagerValidation
import JanaExtensions.OrderIndependence
import JanaExtensions.RouteIsolation
import JanaExtensions.RouteProvenance
import JanaExtensions.BankDispatch
import JanaExtensions.ChildNumbers
import JanaExtensions.EventIdentity
import JanaExtensions.FilterUnion
import JanaExtensions.ScalerFraming
import JanaExtensions.RunRepresentation
import JanaExtensions.ConcurrentLookup
import JanaExtensions.RegistryRuns
import JanaExtensions.TimeReassembly
import JanaExtensions.OwnTriggerTimes
import JanaExtensions.BankBounds
import JanaExtensions.ConsumedWords
import JanaExtensions.VFTDCCodec
import JanaExtensions.MPDCodec
import JanaExtensions.BoardRows
import JanaExtensions.ManifestGrammar
import JanaExtensions.DumpPaths
import JanaExtensions.FADCCursor
import JanaExtensions.OpenedFiles
import JanaExtensions.ConcurrentBlocks
import JanaExtensions.ConcurrentTranslation
import JanaExtensions.WrittenFile
import JanaExtensions.EvioProcessor
import JanaExtensions.PluginLayers
import JanaExtensions.ProcessedFile

import StoreShell.Text.Blank
import StoreShell.Text.Bytes
import StoreShell.Text.Hex
import StoreShell.Text.Numeral
import StoreShell.Text.Utf8
import StoreShell.Sha256
import StoreShell.Path
import StoreShell.Failure
import StoreShell.Token
import StoreShell.Token.Lexer
import StoreShell.Chain
import StoreShell.Chain.Parser
import StoreShell.Glob.Braces
import StoreShell.Glob.Pattern
import StoreShell.LogLine
import StoreShell.Settings
import StoreShell.Entry
import StoreShell.Store
import StoreShell.Cache
import StoreShell.Stream
import StoreShell.Remote
import StoreShell.World
import StoreShell.Script
import StoreShell.Children
import StoreShell.Glob.Expansion
import StoreShell.Command.Operands
import StoreShell.Command.Text
import StoreShell.Command.Folders
import StoreShell.Command.Changes
import StoreShell.Command.Probe
import StoreShell.Registry
import StoreShell.Script.Alone
import StoreShell.Script.Together
import StoreShell.Redirection
import StoreShell.Execution
import StoreShell.Json
import StoreShell.Manifest
import StoreShell.CommandLine
import StoreShell.Trial
import StoreShell.Main
import StoreShell.Proofs.Lists
import StoreShell.Proofs.Path
import StoreShell.Proofs.Ancestors
import StoreShell.Proofs.Store
import StoreShell.Proofs.StoreEdits
import StoreShell.Proofs.StoreChanges
import StoreShell.Proofs.MovedSubtrees
import StoreShell.Proofs.StoreTrees
import StoreShell.Proofs.RefusedRequests
import StoreShell.Proofs.StoreMetadata
import StoreShell.Proofs.CacheLookups
import StoreShell.Proofs.KeyRanges
import StoreShell.Proofs.CacheConsistency
import StoreShell.Proofs.ClaimLifetimes
import StoreShell.Proofs.ReplacedChildren
import StoreShell.Proofs.DroppedBranches
import StoreShell.Proofs.Mirrors
import StoreShell.Proofs.Settling
import StoreShell.Proofs.Steady
import StoreShell.Proofs.Agreement
import StoreShell.Proofs.AgreeingCommands
import StoreShell.Proofs.AgreeingExpansion
import StoreShell.Proofs.Coupling
import StoreShell.Proofs.CoupledCommands
import StoreShell.Proofs.CoupledRuns
import StoreShell.Proofs.Abreast
import StoreShell.Proofs.EnsembleRuns
import StoreShell.Proofs.CoupledEnsembles
import StoreShell.Proofs.CoupledTurns
import StoreShell.Proofs.CoupledLines
import StoreShell.Proofs.Sessions
import StoreShell.Proofs.Claims
import StoreShell.Proofs.OrderlyCommands
import StoreShell.Proofs.Marks
import StoreShell.Proofs.Crews
import StoreShell.Proofs.CrewScripts
import StoreShell.Proofs.CrewLines
import StoreShell.Proofs.ClaimBalance
import StoreShell.Proofs.ClaimOwners
import StoreShell.Proofs.Schedules
import StoreShell.Proofs.PipeEnds
import StoreShell.Proofs.PipelineFailures
import StoreShell.Proofs.ConfinedScripts
import StoreShell.Proofs.PipelineProgress
import StoreShell.Proofs.StreamFunctions
import StoreShell.Proofs.PipeAccounts
import StoreShell.Proofs.SequentialCommands
import StoreShell.Proofs.ScriptProcessors
import StoreShell.Proofs.PipelineOutput
import StoreShell.Proofs.Looking
import StoreShell.Proofs.PipelineSetup
import StoreShell.Proofs.Uploads
import StoreShell.Proofs.Courses
import StoreShell.Proofs.RedirectedOutput
import StoreShell.Proofs.LineFailures
import StoreShell.Proofs.ClientCommands
import StoreShell.Proofs.ListingsInFlight
import StoreShell.Proofs.ChainReading
import StoreShell.Proofs.ChainGrammar
import StoreShell.Proofs.RedirectionOrder
import StoreShell.Proofs.Scanning
import StoreShell.Proofs.OpenQuotes
import StoreShell.Proofs.JoinedLines
import StoreShell.Proofs.PrintedChains
import StoreShell.Proofs.AndOrLists
import StoreShell.Proofs.SpelledWords
import StoreShell.Proofs.PatternWalks
import StoreShell.Proofs.Browsing
import StoreShell.Proofs.Preloading
import StoreShell.Proofs.PatternExpansion
import StoreShell.Proofs.ListingsApart
import StoreShell.Proofs.Loaders
import StoreShell.Proofs.LoaderTurns
import StoreShell.Proofs.ListingsOut
import StoreShell.Proofs.OfferedChildren
import StoreShell.Proofs.SharedListings
import StoreShell.Proofs.Tellings
import StoreShell.Proofs.LoyalScripts
import StoreShell.Proofs.LoyalCommands
import StoreShell.Proofs.AreaHistories
import StoreShell.Proofs.AreasApart
import StoreShell.Proofs.SwitchedAreas
import StoreShell.Proofs.CachedFiles
import StoreShell.Proofs.BraceExpansion
import StoreShell.Proofs.PatternLanguage
import StoreShell.Proofs.Errands
import StoreShell.Proofs.ExpandedListings
import StoreShell.Proofs.NamedEntries
import StoreShell.Proofs.ExaminedOperands
import StoreShell.Proofs.PathSpellings
import StoreShell.Proofs.LoggedLines
import StoreShell.Proofs.IdleLines
import StoreShell.Proofs.UnreadRecords
import StoreShell.Proofs.ForcedRemovals

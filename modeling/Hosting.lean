import Hosting.BaseResource
import Hosting.Classpath
import Hosting.CommandLine.Help
import Hosting.CommandLine.Outcome
import Hosting.CommandLine.Run
import Hosting.CommandLine.Session
import Hosting.CommandLine.Usage
import Hosting.Context.Basic
import Hosting.Context.Preparation
import Hosting.Context.State
import Hosting.ContextPath
import Hosting.Database.Address
import Hosting.Database.Basic
import Hosting.Database.Fault
import Hosting.Database.File
import Hosting.Database.Opening
import Hosting.Database.Place
import Hosting.Database.Statements
import Hosting.Database.Tables
import Hosting.DeploymentId
import Hosting.Descriptor
import Hosting.Failure
import Hosting.FilePath
import Hosting.FileTree.Basic
import Hosting.FileTree.Edit
import Hosting.Host.Basic
import Hosting.Host.Deployment
import Hosting.Host.Lookup
import Hosting.Host.Startup
import Hosting.HostError
import Hosting.Instant
import Hosting.Json.Fault
import Hosting.Json.Numeral
import Hosting.Json.Quote
import Hosting.Json.Reader
import Hosting.Json.Skip
import Hosting.Json.Value
import Hosting.Library
import Hosting.Machine
import Hosting.Main
import Hosting.Namespace
import Hosting.OsError
import Hosting.PathChar
import Hosting.PathTable
import Hosting.PatternSet
import Hosting.Processor.Basic
import Hosting.Processor.Choice
import Hosting.Proofs.Context.Calls
import Hosting.Proofs.Context.Lifecycle
import Hosting.Proofs.Context.Pipeline
import Hosting.Proofs.Context.Quiet
import Hosting.Proofs.Context.Retries
import Hosting.Proofs.Context.Routes
import Hosting.Proofs.Database.SavedDeployments
import Hosting.Proofs.Host.ByteCuts
import Hosting.Proofs.Host.Contention
import Hosting.Proofs.Host.ContextKeys
import Hosting.Proofs.Host.Deployments
import Hosting.Proofs.Host.Events
import Hosting.Proofs.Host.Histories
import Hosting.Proofs.Host.Overlaps
import Hosting.Proofs.Host.Parts
import Hosting.Proofs.Host.Preparations
import Hosting.Proofs.Host.Readings
import Hosting.Proofs.Host.Redeployments
import Hosting.Proofs.Host.Refusals
import Hosting.Proofs.Host.Registry
import Hosting.Proofs.Host.Replacements
import Hosting.Proofs.Host.Reports
import Hosting.Proofs.Host.Requests
import Hosting.Proofs.Host.Restarts
import Hosting.Proofs.Host.Runs
import Hosting.Proofs.Host.Sections
import Hosting.Proofs.Host.SettingsInForce
import Hosting.Proofs.Host.Startups
import Hosting.Proofs.Host.Swaps
import Hosting.Proofs.Host.Tables
import Hosting.Proofs.Host.Turns
import Hosting.Proofs.Json.Choices
import Hosting.Proofs.Json.Escapes
import Hosting.Proofs.Json.Formats
import Hosting.Proofs.Json.Layouts
import Hosting.Proofs.Json.Meanings
import Hosting.Proofs.Json.Members
import Hosting.Proofs.Json.Numerals
import Hosting.Proofs.Json.Omissions
import Hosting.Proofs.Json.Punctuation
import Hosting.Proofs.Json.RoundTrips
import Hosting.Proofs.Json.Skipping
import Hosting.Proofs.Json.TolerantReading
import Hosting.Proofs.Json.Values
import Hosting.Proofs.Json.Wordings
import Hosting.Proofs.Library.Arrivals
import Hosting.Proofs.Library.Expansion
import Hosting.Proofs.Library.Extensions
import Hosting.Proofs.Library.Listings
import Hosting.Proofs.Library.NamePatterns
import Hosting.Proofs.Library.Resolution
import Hosting.Proofs.Library.SearchPaths
import Hosting.Proofs.Library.Splitting
import Hosting.Proofs.Library.Tokens
import Hosting.Proofs.Lookup.AliasRoutes
import Hosting.Proofs.Lookup.AliasTables
import Hosting.Proofs.Lookup.ArchiveBases
import Hosting.Proofs.Lookup.Callers
import Hosting.Proofs.Lookup.Directions
import Hosting.Proofs.Lookup.Grants
import Hosting.Proofs.Lookup.Innermost
import Hosting.Proofs.Lookup.ListedNames
import Hosting.Proofs.Lookup.Ownership
import Hosting.Proofs.Lookup.RealPaths
import Hosting.Proofs.Lookup.Serving
import Hosting.Proofs.Lookup.Spellings
import Hosting.Proofs.Lookup.Verdicts
import Hosting.Proofs.Lookup.WhiteLists
import Hosting.Proofs.Path.Canonical
import Hosting.Proofs.Path.Components
import Hosting.Proofs.Path.ContextPaths
import Hosting.Proofs.Path.ContextSpellings
import Hosting.Proofs.Path.DirectPaths
import Hosting.Proofs.Path.FileNames
import Hosting.Proofs.Path.Joined
import Hosting.Proofs.Path.LeadingSegments
import Hosting.Proofs.Path.Normal
import Hosting.Proofs.Path.Reading
import Hosting.Proofs.Path.ReservedNames
import Hosting.Proofs.Path.SoundTrees
import Hosting.Proofs.Scanner.DeepestRoots
import Hosting.Proofs.Scanner.PathSets
import Hosting.Proofs.Scanner.QuietPeriods
import Hosting.Proofs.Scanner.TableAndWatcher
import Hosting.Proofs.Text.ByteOrder
import Hosting.Proofs.Text.LetterCase
import Hosting.Proofs.Text.Offsets
import Hosting.Proofs.Text.Trimming
import Hosting.ProtectedTargets
import Hosting.Scanner.Basic
import Hosting.Scanner.Debouncer
import Hosting.Scanner.Ownership
import Hosting.Scanner.Watcher
import Hosting.Settings
import Hosting.Text.Blank
import Hosting.Text.Hexadecimal
import Hosting.Text.Letters
import Hosting.Text.Percent
import Hosting.Text.Pieces
import Hosting.Text.Quoted
import Hosting.Text.Unprintable
import Hosting.Text.Utf8
import Hosting.VirtualPath
import Hosting.WhiteList

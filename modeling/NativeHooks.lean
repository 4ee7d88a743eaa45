import NativeHooks.Hook.Declared
import NativeHooks.Main
import NativeHooks.Toml.Printer
import NativeHooks.Proofs.Text.Runs
import NativeHooks.Proofs.Text.Nesting
import NativeHooks.Proofs.Text.Splitting
import NativeHooks.Proofs.Text.Tidy
import NativeHooks.Proofs.Text.Words
import NativeHooks.Proofs.Text.Lines
import NativeHooks.Proofs.Declaration.Parameters
import NativeHooks.Proofs.Declaration.Layout
import NativeHooks.Proofs.Header.Token
import NativeHooks.Proofs.Header.Written
import NativeHooks.Proofs.Header.TypeReading
import NativeHooks.Proofs.Header.ParameterReading
import NativeHooks.Proofs.Header.HeadReading
import NativeHooks.Proofs.Header.BodyReading
import NativeHooks.Proofs.Header.RoundTrip
import NativeHooks.Proofs.Header.Fence
import NativeHooks.Proofs.Header.Parts
import NativeHooks.Proofs.Header.Locality
import NativeHooks.Proofs.Hook.Arguments
import NativeHooks.Proofs.Hook.RoundTrip
import NativeHooks.Proofs.Hook.Fidelity
import NativeHooks.Proofs.Hook.Keys
import NativeHooks.Proofs.Hook.Naming
import NativeHooks.Proofs.Hook.Bundle
import NativeHooks.Proofs.Live.Run
import NativeHooks.Proofs.Live.Debouncing
import NativeHooks.Proofs.Live.Watching
import NativeHooks.Proofs.Live.Reloading
import NativeHooks.Proofs.Text.Order
import NativeHooks.Proofs.Index.SourceOrder
import NativeHooks.Proofs.Index.FailedSources
import NativeHooks.Proofs.Index.Accounting
import NativeHooks.Proofs.Text.Lowercase
import NativeHooks.Proofs.Index.Searching
import NativeHooks.Proofs.Live.Calls
import NativeHooks.Proofs.Settings.Merging
import NativeHooks.Proofs.Text.Utf8
import NativeHooks.Proofs.Tree.Path
import NativeHooks.Proofs.Tree.Files
import NativeHooks.Proofs.Index.WalkOrder
import NativeHooks.Proofs.Index.Enumeration
import NativeHooks.Proofs.Live.Relevance
import NativeHooks.Proofs.Header.Layout
import NativeHooks.Proofs.Header.TypeShape
import NativeHooks.Proofs.Live.Bursts
import NativeHooks.Proofs.Live.Bookkeeping
import NativeHooks.Proofs.Offset.Reading
import NativeHooks.Proofs.Hook.Overloads
import NativeHooks.Proofs.Live.Notices
import NativeHooks.Proofs.Settings.Policies
import NativeHooks.Proofs.Text.Edits
import NativeHooks.Proofs.Settings.Spelling

import Snuffleupagus.Unserialize.Integrity
import Snuffleupagus.Unserialize.Throw
import Snuffleupagus.DisabledFunctions.Simulation
import Snuffleupagus.DisabledFunctions.Return
import Snuffleupagus.DisabledFunctions.Order
import Snuffleupagus.DisabledFunctions.Reference
import Snuffleupagus.DisabledFunctions.Argument
import Snuffleupagus.DisabledFunctions.Descriptor
import Snuffleupagus.Execute.Opcode
import Snuffleupagus.Hook.Survival
import Snuffleupagus.Session.Hook
import Snuffleupagus.Ifilter.Server
import Snuffleupagus.Ini.Request
import Snuffleupagus.Cookie.RoundTrip
import Snuffleupagus.Wrapper.Request
import Snuffleupagus.Log.Dump
import Snuffleupagus.Load.State
import Snuffleupagus.Load.Echo
import Snuffleupagus.Load.Eval
import Snuffleupagus.Execute.Steps
import Snuffleupagus.Load.Constructs
import Snuffleupagus.Execute.Medium
import Snuffleupagus.Execute.FastPath
import Snuffleupagus.Config.Application
import Snuffleupagus.Scanner.Grammar
import Snuffleupagus.Scanner.Inert
import Snuffleupagus.Scanner.RoundTrip
import Snuffleupagus.DisabledFunctions.Inspect
import Snuffleupagus.DisabledFunctions.Digest
import Snuffleupagus.Match.CurrentFrame
import Snuffleupagus.Match.Index
import Snuffleupagus.Match.LocalVar
import Snuffleupagus.Match.Property
import Snuffleupagus.DisabledFunctions.CurrentFrame
import Snuffleupagus.Config.PathBounds
import Snuffleupagus.Config.PathIndex
import Snuffleupagus.Config.PathLevel
import Snuffleupagus.Config.PathRoundTrip
import Snuffleupagus.Match.Prefix
import Snuffleupagus.Config.Cidr
import Snuffleupagus.Config.Number
import Snuffleupagus.Ini.Range
import Snuffleupagus.Ini.Policy
import Snuffleupagus.Ini.Unhook
import Snuffleupagus.Crypt.Separation
import Snuffleupagus.Crypt.Bounds
import Snuffleupagus.Cookie.Merge
import Snuffleupagus.Ifilter.Encode
import Snuffleupagus.DisabledFunctions.EvalFilename
import Snuffleupagus.Execute.Spelling
import Snuffleupagus.Sloppy.Opcode
import Snuffleupagus.Sloppy.ArrayHandler
import Snuffleupagus.Upload.Table
import Snuffleupagus.Scanner.Valuation
import Snuffleupagus.Scanner.Newlines
import Snuffleupagus.Scanner.Ascii
import Snuffleupagus.Scanner.ArrayBounds
import Snuffleupagus.Scanner.Unescape
import Snuffleupagus.Scanner.Textual
import Snuffleupagus.Config.ListSort
import Snuffleupagus.Crypt.TweetNacl
import Snuffleupagus.Cached.Refinement
import Snuffleupagus.Policy.Enforcement

import Nanoservices.Library.SortedMap
import Nanoservices.Library.Interleave
import Nanoservices.Library.Tokens
import Nanoservices.Library.Reading
import Nanoservices.Library.Machine
import Nanoservices.Library.Dialogue
import Nanoservices.Library.Preprocessor
import Nanoservices.Library.Expansion
import Nanoservices.Library.Logged
import Nanoservices.Core.Bytes
import Nanoservices.Core.Fault
import Nanoservices.Util.StringUtils
import Nanoservices.Util.Splitting
import Nanoservices.Util.Trimming
import Nanoservices.Util.Joining
import Nanoservices.Util.Chunks
import Nanoservices.Util.Formatting
import Nanoservices.Serialization.Record
import Nanoservices.Serialization.Types
import Nanoservices.Serialization.Encoder
import Nanoservices.Serialization.Decoder
import Nanoservices.Serialization.Encoding
import Nanoservices.Serialization.Format
import Nanoservices.Serialization.Overlay
import Nanoservices.Serialization.RoundTrip
import Nanoservices.Serialization.Safety
import Nanoservices.Serialization.Diagnosis
import Nanoservices.Serialization.Losses
import Nanoservices.Serialization.Interrupted
import Nanoservices.Serialization.Canonical
import Nanoservices.Serialization.Recoding
import Nanoservices.Serialization.ByteArray
import Nanoservices.Serialization.MapMacro
import Nanoservices.Serialization.Fieldclauses
import Nanoservices.Serialization.Injectivity
import Nanoservices.Serialization.Anonymous
import Nanoservices.Serialization.Evolution
import Nanoservices.Serialization.Merging
import Nanoservices.Logging.Level
import Nanoservices.Logging.Logger
import Nanoservices.Serialization.Tracing
import Nanoservices.Serialization.Visits
import Nanoservices.Configuration.Properties
import Nanoservices.Configuration.LastWriter
import Nanoservices.Configuration.Entries
import Nanoservices.Configuration.CharPointer
import Nanoservices.Configuration.Aliasing
import Nanoservices.Exception.NsException
import Nanoservices.Exception.Rendering
import Nanoservices.Exception.Capture
import Nanoservices.Exception.Aliasing
import Nanoservices.Exception.Sharing
import Nanoservices.Logging.LevelNames
import Nanoservices.Logging.Initialize
import Nanoservices.Testing.Context
import Nanoservices.Testing.Report
import Nanoservices.Testing.Registry
import Nanoservices.Testing.Console
import Nanoservices.Testing.Throwing
import Nanoservices.Program.Startup
import Nanoservices.Program.TestMain

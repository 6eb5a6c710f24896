import FlvMeta.Base.Endian
import FlvMeta.Base.Stdio
import FlvMeta.Base.Pieces
import FlvMeta.Base.Source
import FlvMeta.Base.Loop
import FlvMeta.Base.Lockstep
import FlvMeta.Base.Json
import FlvMeta.Base.Bits
import FlvMeta.Base.JsonString
import FlvMeta.Base.Xml
import FlvMeta.Base.XmlElements
import FlvMeta.Base.Yaml
import FlvMeta.Types
import FlvMeta.Amf.Data
import FlvMeta.Amf.Entries
import FlvMeta.Amf.Lookup
import FlvMeta.Amf.Write
import FlvMeta.Amf.ShortWrites
import FlvMeta.Amf.Read
import FlvMeta.Amf.RoundTrip
import FlvMeta.Amf.Derivation
import FlvMeta.Amf.Simulation
import FlvMeta.Amf.Backends
import FlvMeta.Amf.Padding
import FlvMeta.Amf.List
import FlvMeta.Amf.ArrayRuns
import FlvMeta.Amf.ObjectNodes
import FlvMeta.Amf.Sound
import FlvMeta.Amf.Consumed
import FlvMeta.Amf.Reference
import FlvMeta.Flv.Stream
import FlvMeta.Flv.Tags
import FlvMeta.Flv.Position
import FlvMeta.Flv.Metadata
import FlvMeta.Flv.OwnBody
import FlvMeta.Flv.Progress
import FlvMeta.Flv.Records
import FlvMeta.Flv.Names
import FlvMeta.Flv.Body
import FlvMeta.Flv.Parse
import FlvMeta.Flv.Lockstep
import FlvMeta.Flv.Events
import FlvMeta.Flv.VideoSize
import FlvMeta.Flv.BitReader
import FlvMeta.Flv.ExpGolomb
import FlvMeta.Flv.Sps
import FlvMeta.Flv.BitProgram
import FlvMeta.Flv.SpsDamage
import FlvMeta.Flv.VideoSearch
import FlvMeta.Info.Read
import FlvMeta.Amf.Clone
import FlvMeta.Amf.CloneSize
import FlvMeta.Info.Compute
import FlvMeta.Info.Timeline
import FlvMeta.Update.Write
import FlvMeta.Update.Output
import FlvMeta.Update.Files
import FlvMeta.Update.InPlace
import FlvMeta.Update.Layout
import FlvMeta.Update.Sizes
import FlvMeta.Update.Keyframes
import FlvMeta.Update.Tolerant
import FlvMeta.Info.Turn
import FlvMeta.Info.Step
import FlvMeta.Info.Scan
import FlvMeta.Info.Tree
import FlvMeta.Update.LastSecond
import FlvMeta.Dump.Strings
import FlvMeta.Dump.JsonString
import FlvMeta.Dump.Emitter
import FlvMeta.Dump.Json
import FlvMeta.Dump.JsonFile
import FlvMeta.Dump.Xml
import FlvMeta.Dump.Printf
import FlvMeta.Dump.Raw
import FlvMeta.Dump.Yaml
import FlvMeta.Dump.YamlFile
import FlvMeta.Dump.XmlCallbacks
import FlvMeta.Dump.Formats
import FlvMeta.Dump.Metadata
import FlvMeta.Dump.Agreement
import FlvMeta.Dump.XmlFile
import FlvMeta.Info.Visits
import FlvMeta.Info.Names
import FlvMeta.Info.Index
import FlvMeta.Info.Unwrap
import FlvMeta.Update.Timestamps
import FlvMeta.Info.EndOfFile
import FlvMeta.Info.Merge
import FlvMeta.Update.Written
import FlvMeta.Update.Merge
import FlvMeta.Check.Report
import FlvMeta.CommandLine
import FlvMeta.Check.Tags
import FlvMeta.Check.Metadata
import FlvMeta.Check.File
import FlvMeta.Check.Run
import FlvMeta.Check.Names
import FlvMeta.Check.Verdict
import FlvMeta.Check.Filled
import FlvMeta.Check.Valid
import FlvMeta.Check.Judges
import FlvMeta.Check.TagVerdicts
import FlvMeta.Check.Accepted

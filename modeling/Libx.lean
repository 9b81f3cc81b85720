import Libx.MsgFix.RoundTrip
import Libx.Ruv.Compare
import Libx.Ruv.SelfCompare
import Libx.Ruv.Pairs
import Libx.Tvp.Writer
import Libx.Tvp.Message
import Libx.NetScan.Abort
import Libx.NetScan.Address
import Libx.Sleepy.RoundTrip
import Libx.Url.RoundTrip
import Libx.RangeMap.Lookup
import Libx.Mam.Multiplexer
import Libx.Mam.Poll
import Libx.Mam.Engine
import Libx.Web.Answer
import Libx.Html.Fresh
import Libx.MsgFix.Counters
import Libx.Ruv.Brackets
import Libx.Ruv.Frame
import Libx.Ruv.Counters
import Libx.Ruv.Overrun
import Libx.IdxMap.Lookup
import Libx.Vending.Machine
import Libx.Ruv.Separator
import Libx.Tvp.Growth
import Libx.MsgFix.Structure
import Libx.MsgFix.Progress
import Libx.MsgFix.Returned
import Libx.Sleepy.Partition
import Libx.Tvp.TagNumbers
import Libx.Tvp.Offsets
import Libx.Tvp.Bounds
import Libx.Levenshtein
import Libx.Csv.Tokens
import Libx.Csv.File
import Libx.Hex
import Libx.Url.Range
import Libx.Url.Compare
import Libx.Http.NameValues
import Libx.Http.Search
import Libx.Http.Document
import Libx.Http.Session
import Libx.Http.CsvVector
import Libx.NetScan.Nmap
import Libx.NetScan.Replay
import Libx.NetScan.Display
import Libx.NetScan.Ifconfig
import Libx.Net.Ipv4
import Libx.Net.Sniffer
import Libx.Deque
import Libx.Web.Tokens
import Libx.Web.TagValues
import Libx.Mam.Transfer
import Libx.Mam.Html
import Libx.Lib.Decimal
import Libx.Lib.Workers
import Libx.Argon2.Base64
import Libx.Argon2.Context
import Libx.Argon2.Encoding
import Libx.Argon2.HashString
import Libx.Argon2.Reference
import Libx.Argon2.Filling
import Libx.Argon2.Threads
import Libx.Argon2.Verify
import Libx.Argon2.FirstPass
import Libx.Lib.Absorb
import Libx.Argon2.Blake2b
import Libx.Argon2.Hash
import Libx.Lib.Outline
import Libx.MsgFix.Printing
import Libx.Ruv.Display
import Libx.Ruv.BracketColumns
import Libx.Lib.Memo
import Libx.Net.Owners
import Libx.MsgFix.Tokens

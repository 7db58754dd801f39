import CppHttp.StdString
import CppHttp.Channel
import CppHttp.Message
import CppHttp.Runs
import CppHttp.SseParse
import CppHttp.ChunkReader
import CppHttp.ReadChunked
import CppHttp.ChunkedSse
import CppHttp.Errors
import CppHttp.ReadSse
import CppHttp.HttpMessage
import CppHttp.Matcher
import CppHttp.Server
import CppHttp.Session
import CppHttp.StreamWriter
import CppHttp.BodyFraming
import CppHttp.ChunkedService
import CppHttp.Client
import CppHttp.CompiledMatch
import CppHttp.Dispatch
import CppHttp.HeadSession
import CppHttp.Middleware
import CppHttp.SseLines
import CppHttp.SseRoundTrip
import CppHttp.Fragmentation
import CppHttp.LineEndings
import CppHttp.MovedHandlers
import CppHttp.ReadVerdict
import CppHttp.Redirects
import CppHttp.RequestLine
import CppHttp.ResponseBuilder
import CppHttp.WriteErrors
import CppHttp.ChunkHeaders
import CppHttp.DuplicateNames
import CppHttp.RetryValue
import CppHttp.ChunkGrammar
import CppHttp.ClientRuns
import CppHttp.DummySse
import CppHttp.Listener
import CppHttp.PatternMeaning
import CppHttp.Connection
import CppHttp.RequestFraming
import CppHttp.ResponseCalls
import CppHttp.Pipelining

import Eggfetch.Http.Headers
import Eggfetch.Proxy.Connection
import Eggfetch.Text.Lines
import Eggfetch.Text.Utf8

/-! Responses that the client reads itself, from a forward proxy or through a tunnel: the head
line by line, the body as it comes. -/
namespace Eggfetch.Proxy
open Text Http

/-- The errors of the proxy transports, with their texts. -/
inductive Error where
  | proxyConnect (message : Str)
  | malformedProxyResponse (message : Str)
  | body (message : Str)
  | requestBuild (message : Str)
  | invalidUrl (message : Str)
  | unsupported (message : Str)
  | conflictingAuth (message : Str)
  deriving DecidableEq, Repr

def cr : UInt8 := 0x0d
def lf : UInt8 := 0x0a
def colon : UInt8 := 0x3a
def crlf : Str := [cr, lf]

def maxStatusLineLen : Nat := 4096
def maxHeaderCount : Nat := 100
def maxHeaderLineLen : Nat := 8192
def maxTotalHeaderBytes : Nat := 65536

/-- The line so far is `buf`, which may take `room` bytes more. -/
def readBoundedLineLoop (maxLen room : Nat) (buf : Str) (stream : BufReader) : Poll (Except Error Str) × BufReader :=
  match stream.readByte with
  | (.pending, stream) => (.pending, stream)
  | (.ready (.error e), stream) =>
    (.ready (.error (.proxyConnect (utf8 "failed to read proxy response: " ++ e.text))), stream)
  | (.ready (.ok none), stream) =>
    (.ready (.error (.malformedProxyResponse (utf8 "proxy closed connection before end of line"))), stream)
  | (.ready (.ok (some byte)), stream) =>
    if byte = lf then (.ready (.ok (stripSuffix cr buf)), stream)
    else
      match room with
      | 0 =>
        (.ready (.error (.malformedProxyResponse (utf8 "proxy response line exceeded maximum length of " ++
          utf8 (toString maxLen) ++ utf8 " bytes"))), stream)
      | room + 1 => readBoundedLineLoop maxLen room (buf ++ [byte]) stream

def readBoundedLine (stream : BufReader) (maxLen : Nat) : Poll (Except Error Str) × BufReader :=
  readBoundedLineLoop maxLen maxLen [] stream

def isOws (byte : UInt8) : Bool := byte == 0x20 || byte == 0x09

def trimOws (value : Str) : Str := (value.dropWhile isOws).rdropWhile isOws

/-- `chars().take(n)` of UTF-8. -/
def takeChars : Nat → Str → Str
  | _, [] => []
  | n, b :: rest =>
    if Utf8.isTail b then b :: takeChars n rest
    else
      match n with
      | 0 => []
      | n + 1 => b :: takeChars n rest

def maxPreviewChars : Nat := 200

def truncatePreview (bytes : Str) : Str :=
  let preview := Utf8.fromUtf8Lossy bytes
  takeChars maxPreviewChars preview ++ if maxPreviewChars < Utf8.leads preview then utf8 "…" else []

def splitn (byte : UInt8) : Nat → Str → List Str
  | 0, _ => []
  | 1, s => [s]
  | n + 2, s =>
    match s.idxOf? byte with
    | none => [s]
    | some i => s.take i :: splitn byte (n + 1) (s.drop (i + 1))

abbrev ResponseHeaders := List (Str × Str)

def headersTooLarge : Error :=
  .malformedProxyResponse (utf8 "proxy response headers exceeded maximum total size of " ++
    utf8 (toString maxTotalHeaderBytes) ++ utf8 " bytes")

/-- `room` headers may still be added. -/
def readHeaders (room total : Nat) (headers : ResponseHeaders) (stream : BufReader) :
    Poll (Except Error ResponseHeaders) × BufReader :=
  match readBoundedLine stream maxHeaderLineLen with
  | (.pending, stream) => (.pending, stream)
  | (.ready (.error e), stream) => (.ready (.error e), stream)
  | (.ready (.ok line), stream) =>
    if line.isEmpty then (.ready (.ok headers), stream)
    else if maxTotalHeaderBytes < total + line.length then (.ready (.error headersTooLarge), stream)
    else
      match room with
      | 0 =>
        (.ready (.error (.malformedProxyResponse (utf8 "proxy response exceeded maximum header count of " ++
          utf8 (toString maxHeaderCount)))), stream)
      | room + 1 =>
        match line.idxOf? colon with
        | none => (.ready (.error (.malformedProxyResponse (utf8 "invalid header line: " ++ truncatePreview line))), stream)
        | some i =>
          let name := trimOws (line.take i)
          if (Utf8.fromUtf8 name).isSome then
            (.ready (.error (.malformedProxyResponse (utf8 "proxy response header name is not ASCII"))), stream)
          else readHeaders room (total + line.length) (headers ++ [(name, trimOws (line.drop (i + 1)))]) stream

structure ProxyResponse where
  statusCode : Nat
  headers : ResponseHeaders
  initialBuf : Str
  reasonPhrase : Option Str

def invalidStatusLine (statusLine : Str) : Error :=
  .malformedProxyResponse (utf8 "invalid status line: " ++ truncatePreview statusLine)

def readProxyResponse (stream : BufReader) : Poll (Except Error ProxyResponse) × BufReader :=
  match readBoundedLine stream maxStatusLineLen with
  | (.pending, stream) => (.pending, stream)
  | (.ready (.error e), stream) => (.ready (.error e), stream)
  | (.ready (.ok statusLine), stream) =>
    if statusLine.isEmpty then
      (.ready (.error (.malformedProxyResponse (utf8 "proxy closed connection before response"))), stream)
    else
      let parts := splitn 0x20 3 statusLine
      match parts[1]?.bind (parseUnsigned 65535) with
      | none => (.ready (.error (invalidStatusLine statusLine)), stream)
      | some statusCode =>
        match readHeaders maxHeaderCount 0 [] stream with
        | (.pending, stream) => (.pending, stream)
        | (.ready (.error e), stream) => (.ready (.error e), stream)
        | (.ready (.ok headers), stream) =>
          (.ready (.ok ⟨statusCode, headers, stream.buffer, parts[2]?.map Utf8.fromUtf8Lossy⟩),
            { stream with buffer := [] })

def u64Max : Nat := 2 ^ 64 - 1

def isChunkedToken (token : Str) : Bool := eqIgnoreAsciiCase (trim token) (utf8 "chunked")

/-- `from_utf8(..).unwrap_or_default()` -/
def utf8OrDefault (value : Str) : Str := if (Utf8.fromUtf8 value).isSome then [] else value

def responseContentLengthLoop : ResponseHeaders → Option Nat → Bool → Option Nat
  | [], contentLength, chunked => if chunked then none else contentLength
  | (name, value) :: rest, contentLength, chunked =>
    let chunked := chunked || (eqIgnoreAsciiCase name (utf8 "transfer-encoding") &&
      ((utf8OrDefault value).splitOn 0x2c).any isChunkedToken)
    if eqIgnoreAsciiCase name (utf8 "content-length") then
      if (Utf8.fromUtf8 value).isSome then none
      else
        match contentLength, parseUnsigned u64Max (trim value) with
        | none, parsed => responseContentLengthLoop rest parsed chunked
        | some existing, some current =>
          if existing = current then responseContentLengthLoop rest (some existing) chunked else none
        | some _, none => none
    else responseContentLengthLoop rest contentLength chunked

def responseContentLength (headers : ResponseHeaders) : Option Nat :=
  responseContentLengthLoop headers none false

/-- The state of `ProxyResponseStream` and of `TlsProxyResponseStream`. -/
structure ResponseStream where
  initialBuf : Str
  inner : Connection
  expectedLen : Option Nat
  delivered : Nat

namespace ResponseStream

def chunkSize : Nat := 8192

def new (initialBuf : Str) (inner : Connection) (expectedLen : Option Nat) : ResponseStream :=
  ⟨initialBuf, inner, expectedLen, 0⟩

def bodyIsComplete (s : ResponseStream) : Bool := s.expectedLen.any (· ≤ s.delivered)

/-- `saturating_add` -/
def deliver (s : ResponseStream) (n : Nat) : ResponseStream := { s with delivered := min (s.delivered + n) u64Max }

/-- The `poll_next` of both streams, which report a truncated body by different errors. -/
def pollNext (truncated : Str → Error) (s : ResponseStream) : Poll (Option (Except Error Str)) × ResponseStream :=
  if s.initialBuf ≠ [] then
    let data := s.initialBuf.take chunkSize
    (.ready (some (.ok data)), { s with initialBuf := s.initialBuf.drop chunkSize }.deliver data.length)
  else
    match s.inner.pollRead chunkSize with
    | (.pending, inner) => (.pending, { s with inner := inner })
    | (.ready (.ok []), inner) => (.ready none, { s with inner := inner })
    | (.ready (.ok (b :: rest)), inner) =>
      (.ready (some (.ok (b :: rest))), { s with inner := inner }.deliver (b :: rest).length)
    | (.ready (.error (.unexpectedEof text)), inner) =>
      if s.expectedLen.isSome && !s.bodyIsComplete then
        (.ready (some (.error (truncated (utf8 "proxy closed connection unexpectedly: " ++ text)))), { s with inner := inner })
      else (.ready none, { s with inner := inner })
    | (.ready (.error (.other text)), inner) =>
      (.ready (some (.error (.body (utf8 "proxy stream read error: " ++ text)))), { s with inner := inner })

end ResponseStream

/-- Who reads: `send_http_proxy_request` or `send_https_connect_request_once`. -/
inductive Path where
  | forward
  | tunnel

def Path.pollNext : Path → ResponseStream → Poll (Option (Except Error Str)) × ResponseStream
  | forward => ResponseStream.pollNext .malformedProxyResponse
  | tunnel => ResponseStream.pollNext .body

structure Response where
  status : Nat
  headers : ResponseHeaders
  wireReasonPhrase : Option Str
  body : ResponseStream

/-- `HeaderName::from_bytes` and `HeaderValue::from_bytes` of each field. -/
def headerMap : ResponseHeaders → Except Error ResponseHeaders
  | [] => .ok []
  | (name, value) :: rest =>
    if !validateHeaderName name then
      .error (.malformedProxyResponse (utf8 "invalid header name: invalid HTTP header name"))
    else if !validateHeaderValue value then
      .error (.malformedProxyResponse (utf8 "invalid header value: failed to parse header value"))
    else (headerMap rest).map ((toAsciiLowercase name, value) :: ·)

def respond (connection : Connection) : Poll (Except Error Response) :=
  match readProxyResponse ⟨[], connection⟩ with
  | (.pending, _) => .pending
  | (.ready (.error e), _) => .ready (.error e)
  | (.ready (.ok read), stream) =>
    if read.statusCode < 100 ∨ 999 < read.statusCode then
      .ready (.error (.malformedProxyResponse (utf8 "invalid status code: invalid status code")))
    else
      match headerMap read.headers with
      | .error e => .ready (.error e)
      | .ok headers =>
        let expectedLen := responseContentLength read.headers
        .ready (.ok ⟨read.statusCode, headers, read.reasonPhrase,
          ResponseStream.new read.initialBuf stream.inner expectedLen⟩)

/-- What `n` polls of the body give, and how it has ended. -/
def Path.run (path : Path) : Nat → ResponseStream → Str × Option (Except Error Unit)
  | 0, _ => ([], none)
  | n + 1, s =>
    match path.pollNext s with
    | (.pending, s) => path.run n s
    | (.ready none, _) => ([], some (.ok ()))
    | (.ready (some (.error e)), _) => ([], some (.error e))
    | (.ready (some (.ok data)), s) =>
      let more := path.run n s
      (data ++ more.1, more.2)

/-- What a caller has got of the response after `n` polls of its body. -/
def Path.receive (path : Path) (n : Nat) (connection : Connection) : Str × Option (Except Error Unit) :=
  match respond connection with
  | .pending => ([], none)
  | .ready (.error e) => ([], some (.error e))
  | .ready (.ok response) => path.run n response.body

end Eggfetch.Proxy

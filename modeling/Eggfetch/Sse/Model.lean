import Eggfetch.Text.Split
import Eggfetch.Text.Terminators

/-! Server-sent events: chunks of text are cut into lines, and lines become events. -/
namespace Eggfetch.Sse
open Text

/-- `len(text.encode("utf-8"))` -/
def utf8Length (text : List Char) : Nat := (text.map Char.utf8Size).sum

/-- `str.replace("\r\n", "\n")` -/
def replaceCrLf : List Char → List Char
  | [] => []
  | [c] => [c]
  | c :: d :: rest => if c = '\r' ∧ d = '\n' then '\n' :: replaceCrLf rest else c :: replaceCrLf (d :: rest)

/-- `str.replace("\r", "\n")` -/
def replaceCr (text : List Char) : List Char := text.map fun c => if c = '\r' then '\n' else c

structure SSEError where
  message : String
deriving DecidableEq

def SSEError.exceeded (maxEventSize : Int) : SSEError :=
  ⟨s!"Server-sent event exceeded the {maxEventSize} byte limit."⟩

structure ServerSentEvent where
  event : List Char
  data : List Char
  id : List Char
  retry : Option Int
deriving DecidableEq

structure SSEEventDecoder where
  maxEventSize : Option Int
  event : List Char
  data : List (List Char)
  eventSize : Nat
  lastEventId : List Char
  retry : Option Int
  pending : Bool

/-- The field of a line: `partition(":")`, and one blank less before the value. -/
def fieldOf (line : List Char) : List Char × List Char :=
  let field := splitOnce ':' line
  (field.1, if field.2.head? = some ' ' then field.2.tail else field.2)

namespace SSEEventDecoder

def new (maxEventSize : Option Int) : SSEEventDecoder := ⟨maxEventSize, [], [], 0, [], none, false⟩

def checkSize (self : SSEEventDecoder) (pendingSize : Nat) : Except SSEError Unit :=
  match self.maxEventSize with
  | some limit =>
    if limit < self.eventSize + pendingSize then .error (.exceeded limit) else .ok ()
  | none => .ok ()

def sse (self : SSEEventDecoder) : ServerSentEvent where
  event := if self.event = [] then "message".toList else self.event
  data := ['\n'].intercalate self.data
  id := self.lastEventId
  retry := self.retry

variable (int : List Char → Option Int)

/-- `int` is Python's, and answers `none` where that raises a `ValueError`. -/
def setField (self : SSEEventDecoder) (fieldname value : List Char) : SSEEventDecoder :=
  if fieldname = "event".toList then { self with event := value, pending := true }
  else if fieldname = "data".toList then { self with data := self.data ++ [value], pending := true }
  else if fieldname = "id".toList then
    if '\x00' ∈ value then self else { self with lastEventId := value, pending := true }
  else if fieldname = "retry".toList then
    match int value with
    | some retry => { self with retry := some retry, pending := true }
    | none => self
  else self

def decode (self : SSEEventDecoder) (line : List Char) : Except SSEError (Option ServerSentEvent × SSEEventDecoder) :=
  if line = [] then
    let self := { self with eventSize := 0 }
    if self.pending then
      .ok (some self.sse, { self with event := [], data := [], retry := none, pending := false })
    else .ok (none, self)
  else if line.head? = some ':' then .ok (none, self)
  else
    let self := { self with eventSize := self.eventSize + utf8Length line }
    (self.checkSize 0).map fun _ => (none, self.setField int (fieldOf line).1 (fieldOf line).2)

def decodeLines (self : SSEEventDecoder) :
    List (List Char) → List ServerSentEvent × Except SSEError SSEEventDecoder
  | [] => ([], .ok self)
  | line :: rest =>
    match self.decode int line with
    | .error e => ([], .error e)
    | .ok (sse, next) => (sse.toList ++ (next.decodeLines rest).1, (next.decodeLines rest).2)

end SSEEventDecoder

structure SSELineDecoder where
  parts : List (List Char)
  pendingSize : Nat
  trailingCr : Bool

namespace SSELineDecoder

def new : SSELineDecoder := ⟨[], 0, false⟩

def append (self : SSELineDecoder) (text : List Char) : SSELineDecoder :=
  if text = [] then self
  else { self with parts := self.parts ++ [text], pendingSize := self.pendingSize + utf8Length text }

def consumePending (self : SSELineDecoder) : List Char × SSELineDecoder :=
  (self.parts.flatten, { self with parts := [], pendingSize := 0 })

def decode (self : SSELineDecoder) (text : List Char) : List (List Char) × SSELineDecoder :=
  let text := if self.trailingCr then '\r' :: text else text
  let self := { self with trailingCr := decide (text.getLast? = some '\r') }
  let text := if self.trailingCr then text.dropLast else text
  let text := replaceCr (replaceCrLf text)
  match text.splitOn '\n' with
  | first :: second :: rest =>
    let pending := (self.append first).consumePending
    (pending.1 :: (second :: rest).dropLast, pending.2.append ((second :: rest).getLastD []))
  | _ => ([], self.append text)

def flush (self : SSELineDecoder) : List (List Char) :=
  let self := if self.trailingCr then self.append ['\n'] else self
  let buffer := self.consumePending.1
  if buffer = [] then [] else buffer.splitOn '\n'

end SSELineDecoder

structure SSEParser where
  eventDecoder : SSEEventDecoder
  lineDecoder : SSELineDecoder

namespace SSEParser
variable (int : List Char → Option Int)

def new (maxEventSize : Option Int) : SSEParser := ⟨.new maxEventSize, .new⟩

def decode (self : SSEParser) (text : List Char) : List ServerSentEvent × Except SSEError SSEParser :=
  let lines := self.lineDecoder.decode text
  let events := self.eventDecoder.decodeLines int lines.1
  (events.1, events.2.bind fun eventDecoder =>
    (eventDecoder.checkSize lines.2.pendingSize).map fun _ => ⟨eventDecoder, lines.2⟩)

def flush (self : SSEParser) : List ServerSentEvent × Except SSEError SSEEventDecoder :=
  self.eventDecoder.decodeLines int self.lineDecoder.flush

/-- `EventSource.__iter__` over the chunks of a response of the right content type: the events,
and the error that ends them if one does. -/
def iterate (self : SSEParser) : List (List Char) → List ServerSentEvent × Option SSEError
  | [] =>
    match self.flush int with
    | (events, .ok _) => (events, none)
    | (events, .error e) => (events, some e)
  | chunk :: rest =>
    match self.decode int chunk with
    | (events, .ok next) => (events ++ (next.iterate rest).1, (next.iterate rest).2)
    | (events, .error e) => (events, some e)

end SSEParser
end Eggfetch.Sse

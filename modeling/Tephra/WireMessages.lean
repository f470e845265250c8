import Tephra.EventCodec
import Tephra.Protobuf
import Tephra.ReadPlan

/-!
# Messages on the wire

A client sends events in the append requests that its frames hold, and the server
sends them back, each under its position, in the responses of its reads.  A frame
is a serialized message behind its length, and neither side accepts or produces a
frame over the limit.
-/

namespace Tephra

namespace Pb

open Protobuf

/-- An event on the wire; its strings are not validated. -/
structure Event where
  type : List UInt8
  tags : List (List UInt8)
  payload : List UInt8

structure SequencedEvent where
  position : Nat
  event : Event

structure AppendRequest where
  events : List Event

structure Request where
  requestId : Nat
  append : AppendRequest

inductive ResponseKind where
  | readEvents (events : List SequencedEvent)
  | readEnd (watermark : Nat)
  | error (source : Read.ReadError)

structure Response where
  requestId : Nat
  kind : ResponseKind

def Event.encode (event : Event) : List UInt8 :=
  bytesField 1 event.type ++ event.tags.flatMap (fun tag => lenField 2 tag) ++
    bytesField 3 event.payload

def SequencedEvent.encode (sequenced : SequencedEvent) : List UInt8 :=
  uintField 1 sequenced.position ++ lenField 2 sequenced.event.encode

def AppendRequest.encode (append : AppendRequest) : List UInt8 :=
  append.events.flatMap fun event => lenField 1 event.encode

def Request.encode (request : Request) : List UInt8 :=
  uintField 1 request.requestId ++ lenField 2 request.append.encode

/-- `ERROR_CODE_INTERNAL`. -/
def internalCode : Nat := 6

/-- A response, with the texts of the errors as a parameter. -/
def Response.encode (display : Read.ReadError → List UInt8) (response : Response) : List UInt8 :=
  uintField 1 response.requestId ++
    match response.kind with
    | .readEvents events => lenField 3 (events.flatMap fun event => lenField 1 event.encode)
    | .readEnd watermark => lenField 4 (uintField 1 watermark)
    | .error source => lenField 5 (uintField 1 internalCode ++ bytesField 2 (display source))

theorem Event.length_encode (event : Event) :
    event.encode.length = bytesFieldLen 1 event.type.length +
      (event.tags.map fun tag => lenFieldLen 2 tag.length).sum +
        bytesFieldLen 3 event.payload.length := by
  simp [encode, List.length_flatMap, Nat.add_assoc]

theorem SequencedEvent.length_encode (sequenced : SequencedEvent) :
    sequenced.encode.length =
      uintFieldLen 1 sequenced.position + lenFieldLen 2 sequenced.event.encode.length := by
  simp [encode]

theorem Request.length_encode (request : Request) :
    request.encode.length = uintFieldLen 1 request.requestId +
      lenFieldLen 2 (request.append.events.map fun event =>
        lenFieldLen 1 event.encode.length).sum := by
  simp [encode, AppendRequest.encode, List.length_flatMap]

end Pb

namespace Server

inductive FrameError where
  | tooLarge (len max : Nat)
deriving DecidableEq, Repr

/-- Put the length of a serialized message, in big-endian order, in front of it. -/
def writeFrame (maxFrameLen : Nat) (body : List UInt8) : Except FrameError (List UInt8) :=
  if body.length > maxFrameLen then
    .error (.tooLarge (min body.length (2 ^ 32 - 1)) maxFrameLen)
  else
    .ok ((LittleEndian.encode 4 body.length).reverse ++ body)

theorem writeFrame_ok_iff {maxFrameLen : Nat} {body : List UInt8} :
    (∃ frame, writeFrame maxFrameLen body = .ok frame) ↔ body.length ≤ maxFrameLen := by
  rw [writeFrame]
  split
  · rename_i large
    simpa using large
  · rename_i small
    simpa using small

inductive ConvertError where
  | invalidUtf8
  | name (source : NameError)
  | tags (source : TagsError)
  | encode (source : EncodeError)
deriving DecidableEq

def asStr (view : List UInt8) :
    Except ConvertError { bytes : List UInt8 // validUtf8 bytes = true } :=
  if utf8 : validUtf8 view = true then .ok ⟨view, utf8⟩ else .error .invalidUtf8

/-- Make a name of a field. -/
def nameFromPb (what : String) (view : List UInt8) : Except ConvertError Name := do
  let text ← asStr view
  (Name.new what text).mapError .name

def tagsFromPb (tags : List (List UInt8)) : Except ConvertError Tags := do
  let out ← tags.mapM (nameFromPb "tag")
  (Tags.new out).mapError .tags

def eventFromProto (event : Pb.Event) : Except ConvertError Event := do
  let eventType ← nameFromPb "event type" event.type
  let tags ← tagsFromPb event.tags
  (Event.new eventType tags event.payload).mapError .encode

def eventsFromProto (append : Pb.AppendRequest) : Except ConvertError (List Event) :=
  append.events.mapM eventFromProto

def sequencedToProto (position : Nat) (event : Event) : Pb.SequencedEvent :=
  ⟨position, ⟨event.eventType.bytes, event.tags.toList.map Name.bytes, event.data⟩⟩

end Server

end Tephra

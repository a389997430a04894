import TracedEval.Cache
import TracedEval.Http.Head
import TracedEval.Http.Uri

/-!
# Fetching a text

A client is asked for what is at an address and gives a complete response or a reason.
The usual one sends a request to the origin that the address names, over a transport
that either brings back a response or says why there is no connection.  What is fetched
has to be successful and UTF-8; a body that broke off matters more than the status.
-/

namespace TracedEval.Http

structure Request where
  method : String
  origin : Origin
  target : Target
  headers : Headers
  deriving Inhabited

namespace Request

def url (request : Request) : String :=
  request.origin.text ++ request.target.text

/-- A request for a resource.  It has no body, hence no coding of one, and names
the host unless the caller does. -/
def get (origin : Origin) (target : Target) (headers : Headers) : Request where
  method := "GET"
  origin := origin
  target := target
  headers :=
    (headers.grouped.withDefault "host" origin.hostText).remove
      "transfer-encoding"

end Request

structure Response where
  status : Status
  body : ByteArray
  extent : Extent
  deriving Inhabited

namespace Response

def greatestLength : Nat := 18446744073709551613

def ofBytes (bytes : ByteArray) : Except HeadFault Response := do
  let (head, rest) ← Head.read (charsOfBytes bytes)
  return ⟨head.status, bytesOfChars rest, ← head.extent⟩

/-- The first of at most so many responses that is not just information about the
one to come. -/
def settledWithin : Nat → Response → Except HeadFault Response
  | 0, _ => .error .unfinished
  | rounds + 1, response =>
      if !response.status.isValid then .error .status
      else if response.status.isInformational then
        match ofBytes response.body with
        | .error fault => .error fault
        | .ok response => settledWithin rounds response
      else if response.status.isBodiless then .ok response
      else
        match response.extent with
        | .length length =>
            if greatestLength < length then .error .tooLarge else .ok response
        | _ => .ok response

/-- The response proper.  Every further one is shorter than the one before it. -/
def settled (response : Response) : Except HeadFault Response :=
  settledWithin (response.body.size + 1) response

/-- The bytes that belong to the response, if they have all arrived. -/
def content (response : Response) : Except BodyFault ByteArray :=
  if response.status.isBodiless then .ok .empty
  else response.extent.content response.body

end Response

inductive Fault where
  | invalidUri (url : String)
  | notAbsolute
  | notConnected (reason : String)
  | noResponse (fault : HeadFault)
  | noBody (fault : BodyFault)
  | unsuccessful (url : String) (status : Status)
  | notText (url : String)
  deriving Inhabited

def Fault.message : Fault → String
  | .invalidUri url => "Invalid HTTP URL: " ++ url
  | .notAbsolute => "HTTP network error: client requires absolute-form URIs"
  | .notConnected reason =>
      "HTTP network error: error trying to connect: " ++ reason
  | .noResponse fault => "HTTP network error: " ++ fault.message
  | .noBody fault =>
      "Invalid HTTP response body: error reading a body from connection: " ++
        fault.message
  | .unsuccessful url status =>
      "HTTP request " ++ url ++ " failed with status " ++ status.text
  | .notText url => "Invalid UTF-8 response body from " ++ url

/-- Sends a request and waits for what comes back. -/
abbrev Transport (ω : Type) :=
  Request → ω → Except String Response × ω

def requestFor (url : String) (headers : Headers) : Except Fault Request :=
  match Uri.ofText? url with
  | none => .error (.invalidUri url)
  | some (.absolute origin target) => .ok (.get origin target headers)
  | some _ => .error .notAbsolute

/-! ## Clients -/

structure Reply where
  status : Status
  body : ByteArray
  deriving Inhabited

/-- Fetches what is at an address, or says what went wrong. -/
abbrev Client (ω : Type) :=
  String → Headers → ω → Except String Reply × ω

def Response.reply (response : Response) : Except Fault Reply :=
  match response.settled with
  | .error fault => .error (.noResponse fault)
  | .ok response =>
      match response.content with
      | .error fault => .error (.noBody fault)
      | .ok content => .ok ⟨response.status, content⟩

def Client.over {ω : Type} (transport : Transport ω) : Client ω :=
  fun url headers world =>
    match requestFor url headers with
    | .error fault => (.error fault.message, world)
    | .ok request =>
        match transport request world with
        | (.error reason, world) => (.error (Fault.notConnected reason).message, world)
        | (.ok response, world) => (response.reply.mapError Fault.message, world)

def Reply.text (url : String) (reply : Reply) : Except Fault String :=
  if !reply.status.isSuccess then .error (.unsuccessful url reply.status)
  else
    match String.fromUTF8? reply.body with
    | some text => .ok text
    | none => .error (.notText url)

def fetchText {ω : Type} (client : Client ω) (url : String) (headers : Headers) :
    Reduction (Session ω) (Except String String) := do
  match ← Reduction.onWorld (client url headers) with
  | .error reason => return .error reason
  | .ok reply => return (reply.text url).mapError Fault.message

end TracedEval.Http

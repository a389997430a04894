import TracedEval.Http.Exchange

/-!
# Answers from a table

A table of responses stands in for a network.  Every origin can be reached but
those that refuse connections, and what the table does not hold is not found.
-/

namespace TracedEval.Http

structure Routes where
  responses : List (String × Response)
  refusals : List (String × String)
  deriving Inhabited

namespace Routes

def empty : Routes :=
  ⟨[], []⟩

def refusal? (routes : Routes) (request : Request) : Option String :=
  routes.refusals.lookup request.origin.text

def response (routes : Routes) (request : Request) : Response :=
  (routes.responses.lookup request.url).getD ⟨.notFound, .empty, .connection⟩

def answer (routes : Routes) (request : Request) : Except String Response :=
  match routes.refusal? request with
  | some reason => .error reason
  | none => .ok (routes.response request)

def transport {ω : Type} (routes : Routes) : Transport ω :=
  fun request world => (routes.answer request, world)

end Routes

end TracedEval.Http

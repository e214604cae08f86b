import StreamDispatch.Handler
import StreamDispatch.Text.Quoted

set_option autoImplicit false

/-! # Choosing a handler

A resolver is built from an ordered list of bindings, each of a registration to a way of making a
handler. A binding whose handler cannot be made is left out, and of several bindings of one
registration the first counts. A message goes to the handler bound to the registration that its
headers name, and to the handler of unknown types if there is none. -/

namespace StreamDispatch

/-- A registration bound to a handler, or to the causes why the handler could not be made. -/
structure Binding where
  registration : Registration
  made : Except (List String) Handler

/-- A table of handlers. -/
structure Resolver where
  /-- The bindings that count, in the order in which they were made. -/
  table : List (Registration × Handler)

/-- Why no handler can be chosen: the version header of a message is no version. -/
structure InvalidVersion where
  messageId : String
  value : String
  deriving DecidableEq, Repr

def InvalidVersion.message (e : InvalidVersion) : String :=
  s!"Message {e.messageId} has non-numeric {Headers.messageTypeVersion} header: "
    ++ Text.quoted e.value

namespace Resolver

def find (r : Registration) : List (Registration × Handler) → Option Handler
  | [] => none
  | (r', h) :: rest => if r' = r then some h else find r rest

def get? (resolver : Resolver) (r : Registration) : Option Handler := find r resolver.table

def contains (resolver : Resolver) (r : Registration) : Bool := (resolver.get? r).isSome

def size (resolver : Resolver) : Nat := resolver.table.length

/-- The registrations with a handler, by type and version. -/
def registrations (resolver : Resolver) : List Registration :=
  (resolver.table.map Prod.fst).mergeSort fun a b => !b.before a

/-! ## Building -/

def empty : Resolver := ⟨[]⟩

/-- Adds a binding, with the line that tells what became of it. -/
def bind (resolver : Resolver) (b : Binding) : Resolver × Log.Line :=
  let registration := ("registration", b.registration.text)
  match b.made with
  | .error causes =>
    (resolver, Log.error "❌ Handler factory did not produce a valid handler, skipping"
      [registration, ("error", causeText causes)])
  | .ok h =>
    if resolver.contains b.registration then
      (resolver, Log.error "❌ Duplicate handler registration, keeping the first binding"
        [registration, ("handler", h.name)])
    else
      (⟨resolver.table ++ [(b.registration, h)]⟩,
        Log.debug "Registering handler" [registration, ("handler", h.name)])

/-- Adds bindings in order, with a line for each. -/
def bindAll (resolver : Resolver) : List Binding → Resolver × List Log.Line
  | [] => (resolver, [])
  | b :: rest =>
    let (resolver, line) := resolver.bind b
    let (resolver, lines) := resolver.bindAll rest
    (resolver, line :: lines)

/-- The resolver of a list of bindings, with what is logged when it is built. -/
def build (bindings : List Binding) : Resolver × List Log.Line :=
  let (resolver, lines) := empty.bindAll bindings
  (resolver,
    lines ++ [Log.info "📚 Dispatch table built" [("handlers", toString resolver.size)]])

/-! ## Resolving -/

/-- The handler for a message with headers: none stands for the handler of unknown types. -/
def choose (resolver : Resolver) (headers : Headers) (messageId : String) :
    Except InvalidVersion (Option Handler) :=
  match Registration.ofHeaders headers with
  | .error _ => .error ⟨messageId, (headers.get? Headers.messageTypeVersion).getD ""⟩
  | .ok r => .ok (resolver.get? r)

def chooseLines (resolver : Resolver) (headers : Headers) (messageId : String) :
    List Log.Line :=
  let id := ("message_id", messageId)
  Log.debug "Resolving handler" [id] ::
    match Registration.ofHeaders headers with
    | .error _ => []
    | .ok r =>
      if resolver.contains r then []
      else [Log.warn "No handler was found for message" [id, ("registration", r.text)]]

end Resolver

/-! ## Choosers -/

/-- Who handles a message, or why nobody does. -/
inductive Choice
  | handler (h : Handler)
  | invalid (e : InvalidVersion)
  /-- The choice broke off with a message. -/
  | brokeOff (message : String)

/-- Whoever chooses handlers for messages, by their headers and by what identifies them. -/
structure Chooser where
  choose : Ticket → Headers → String → Choice
  /-- What is logged when a handler is chosen. -/
  lines : Headers → String → List Log.Line

def Resolver.chooser (resolver : Resolver) : Chooser where
  choose _ headers messageId :=
    match resolver.choose headers messageId with
    | .error e => .invalid e
    | .ok h => .handler (h.getD .unknownType)
  lines := resolver.chooseLines

instance : Coe Resolver Chooser := ⟨Resolver.chooser⟩

end StreamDispatch

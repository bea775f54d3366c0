import Transclusion.Content
import Transclusion.Duration
import Transclusion.Fault
import Transclusion.Url.Reading

/-!
# The web

* `Request`, `Response` : what is asked and what is answered; `Request.make?` checks the parts;
* `Web` : answers to requests; `Web.unreachable` : none at all;
* `Web.ofPages` : an answer for each URL.
-/

namespace Transclusion

/-- What is asked of a server. A header may be given more than once. -/
structure Request where
  url : Url
  headers : List (String × String)
  timeout : Duration

structure Response where
  status : Nat
  content : Content

namespace Request

def isNameChar (c : Char) : Bool := c.isAlphanum || "!#$%&'*+-.^_\x60|~".toList.contains c

def isHeaderName (s : String) : Bool := !s.isEmpty && s.toList.all isNameChar

/-- A character of a header's value: no control character but the tab. -/
def isValueChar (c : Char) : Bool := c == '\t' || (0x20 ≤ c.toNat && c.toNat != 0x7F)

/-- A name and its value can be sent. -/
def isHeader (h : String × String) : Bool := isHeaderName h.1 && h.2.toList.all isValueChar

/-- A request for a URL of the web, given as a text. -/
def make? (url : String) (headers : List (String × String)) (timeout : Duration) : Except HttpFault Request :=
  match Url.ofText? url with
  | none => .error .invalidUrl
  | some u =>
    if !u.isWeb then .error .invalidUrl
    else if !headers.all isHeader then .error .invalidRequest
    else .ok ⟨u, headers, timeout⟩

end Request

structure Web (m : Type → Type) where
  get : Request → m (Except HttpFault Response)

namespace Web

variable {m : Type → Type} [Monad m]

def unreachable : Web m := ⟨fun r => pure (.error (.unreachable r.url.text))⟩

/-- The same answer to every request for a URL. A fragment is not part of what is asked. -/
def ofPages (answer : String → Except HttpFault Response) : Web m :=
  ⟨fun r => pure (answer { r.url with fragment := none }.text)⟩

end Web
end Transclusion

import Transclusion.Text.Blank
import Transclusion.Text.Cut
import Transclusion.Url.Reading

/-!
# Links of a page

* `Page.links` : the targets of all `href` attributes, in the order of the page;
* `Page.follow?` : the URL that a link on a page leads to.
-/

namespace Transclusion
namespace Page

open Text

/-- A quotation mark; a value may begin with one and end with another. -/
def isQuote (c : Char) : Bool := c == '"' || c == '\''

/-- What follows `word` in either case. -/
def dropWord? : (word cs : List Char) → Option (List Char)
  | [], cs => some cs
  | _ :: _, [] => none
  | w :: word, c :: cs => if w = c.toLower then dropWord? word cs else none

/-- The target of the attribute that a text begins with, and the text after it. -/
def attribute? (cs : List Char) : Option (List Char × List Char) := do
  let rest ← dropWord? ['h', 'r', 'e', 'f'] cs
  let rest ← dropHead? ['='] (rest.dropWhile isBlank)
  match rest.dropWhile isBlank with
  | [] => none
  | q :: rest =>
    let target := rest.takeWhile fun c => !isQuote c
    match rest.dropWhile fun c => !isQuote c with
    | [] => none
    | _ :: rest => if isQuote q && !target.isEmpty then some (target, rest) else none

/-- The targets in a text after its first `skip` characters. -/
def linksFrom : (skip : Nat) → List Char → List String
  | _, [] => []
  | skip + 1, _ :: cs => linksFrom skip cs
  | 0, c :: cs =>
    match attribute? (c :: cs) with
    | some (target, rest) => String.ofList target :: linksFrom (cs.length - rest.length) cs
    | none => linksFrom 0 cs

def links (body : String) : List String := linksFrom 0 body.toList

/-- A link stays on its page, or opens a letter. -/
def isAside (link : String) : Bool :=
  let cs := link.toList
  cs.head? == some '#' || cs.head? == some '?' || "mailto:".toList.isPrefixOf cs

/-- Where a link on a page leads in the web, without query and fragment. -/
def follow? (page : Url) (link : String) : Option Url :=
  if isAside link then none
  else match page.join? link with
    | some u => if u.isWeb then some u.plain else none
    | none => none

end Page
end Transclusion

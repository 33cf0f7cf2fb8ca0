import FlowScript.Path
import FlowScript.Url.Host

/-! Locations of resources: a scheme, an authority, a path, a query and a fragment, all in the one
spelling that stands for the location. -/
namespace FlowScript

/-- Who answers for a location; the host may be left empty. -/
structure Url.Authority where
  user : String
  host : Option Url.Host
  portNumber : Option Nat
  deriving DecidableEq, Repr

/-- A path of segments, or a text without structure. -/
inductive Url.Route where
  | segments (l : List String)
  | plain (s : String)
  deriving DecidableEq, Repr

structure Url where
  scheme : String
  authority : Option Url.Authority
  route : Url.Route
  query : Option String
  fragment : Option String
  deriving DecidableEq, Repr

namespace Url
open Text

def Authority.text (a : Authority) : String :=
  a.user ++ (a.host.map Host.text).getD "" ++ (a.portNumber.map fun n => ":" ++ toString n).getD ""

/-- Without an authority a path may not begin with two slashes. -/
def Route.text (hasAuthority : Bool) : Route → String
  | .plain s => s
  | .segments l =>
    (if !hasAuthority && l.length > 1 && l.head? == some "" then "/." else "") ++ "/" ++ join "/" l

def text (u : Url) : String :=
  u.scheme ++ ":" ++ (u.authority.map fun a => "//" ++ a.text).getD "" ++
    u.route.text u.authority.isSome ++ (u.query.map ("?" ++ ·)).getD "" ++
    (u.fragment.map ("#" ++ ·)).getD ""

def host? (u : Url) : Option Host := u.authority.bind Authority.host

/-- The path of a file that the segments spell, whatever the scheme; there is none on other hosts. A
text that ends like the letter of a drive gets a slash. Paths are texts, so bytes that are no UTF-8 cannot be
kept and stand as replacement characters. -/
def filePath? (u : Url) : Option Path :=
  match u.route with
  | .plain _ => none
  | .segments l =>
    match u.host? with
    | none | some (.name "localhost") =>
      let bytes := l.flatMap fun segment => 47 :: unescape segment.toUTF8.toList
      let s := decodeLossy bytes
      match s.toList.reverse with
      | ':' :: c :: _ :: _ | '|' :: c :: _ :: _ => some ⟨if c.isAlpha then s ++ "/" else s⟩
      | _ => some ⟨s⟩
    | some _ => none

/-- The names of an absolute path, with nothing for a path that is only the root. -/
def fileSegments? (p : Path) : Option (List String) :=
  match p.components with
  | .root :: rest => some (rest.map fun
      | .name s => escape inSegment s
      | .up => ".."
      | _ => "")
  | _ => none

def ofSegments (l : List String) : Url := ⟨"file", some ⟨"", none, none⟩, .segments l, none, none⟩

/-- The location of a directory, which ends with a slash; relative paths have none. -/
def ofDirectory? (p : Path) : Option Url := (fileSegments? p).map fun l => ofSegments (l ++ [""])

/-- The location of a file. -/
def ofFile? (p : Path) : Option Url :=
  (fileSegments? p).map fun l => ofSegments (if l.isEmpty then [""] else l)

example : (ofDirectory? ⟨"/a b//ü/."⟩).map text = some "file:///a%20b/%C3%BC/" := by decide +kernel
example : (ofDirectory? ⟨"/"⟩).map text = some "file:///" := by decide +kernel

end Url
end FlowScript

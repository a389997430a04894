import TracedEval.Decimal

/-!
# Addresses of resources

The absolute form of an address names an origin, that is a scheme and an authority,
and a target in it.  There are also addresses of a target alone and of an authority
alone.  A fragment is read and forgotten.
-/

namespace TracedEval.Http

structure Target where
  path : String
  query : Option String
  deriving DecidableEq, Repr, Inhabited

namespace Target

def text (target : Target) : String :=
  (if target.path.isEmpty then "/" else target.path) ++
    match target.query with
    | some query => "?" ++ query
    | none => ""

end Target

structure Origin where
  scheme : String
  authority : String
  deriving DecidableEq, Repr, Inhabited

namespace Origin

def text (origin : Origin) : String :=
  origin.scheme ++ "://" ++ origin.authority

def isSecure (origin : Origin) : Bool :=
  origin.scheme == "https" || origin.scheme == "wss"

private def afterLast (mark : Char) (chars : List Char) : Option (List Char) :=
  if chars.contains mark then
    some (chars.reverse.takeWhile (· != mark)).reverse
  else none

/-- The name of the machine, less any user and any number after a colon; brackets
belong to it. -/
def host (origin : Origin) : String :=
  let chars := origin.authority.toList
  let chars := (afterLast '@' chars).getD chars
  String.ofList
    (match chars with
    | '[' :: _ => chars.takeWhile (· != ']') ++ [']']
    | _ => chars.takeWhile (· != ':'))

def socket? (origin : Origin) : Option Int := do
  let digits ← afterLast ':' origin.authority.toList
  (Numeral.bounded 0 65535 digits).toOption

def usualSocket (origin : Origin) : Int :=
  if origin.isSecure then 443 else 80

def hostText (origin : Origin) : String :=
  match origin.socket? with
  | none => origin.host
  | some socket =>
      if socket = origin.usualSocket then origin.host
      else origin.host ++ ":" ++ Numeral.integerText socket

end Origin

inductive Uri where
  | absolute (origin : Origin) (target : Target)
  | target (target : Target)
  | authority (authority : String)
  deriving DecidableEq, Repr, Inhabited

namespace Uri

/-! ## Characters -/

def isAlphanumeric (char : Char) : Bool :=
  char.isDigit || ('a' ≤ char && char ≤ 'z') || ('A' ≤ char && char ≤ 'Z')

def isSchemeChar (char : Char) : Bool :=
  isAlphanumeric char || "+-.~".toList.contains char

def isAuthorityChar (char : Char) : Bool :=
  isAlphanumeric char || "!$&'()*+,-.;=_~".toList.contains char

def isTargetMark (char : Char) : Bool :=
  char == '/' || char == '?' || char == '#'

/-- Paths may hold quotation marks and braces, which should have been encoded. -/
def isPathChar (char : Char) : Bool :=
  '!' ≤ char && char ≤ '~' && !"#<>?\x60".toList.contains char

def isQueryChar (char : Char) : Bool :=
  '!' ≤ char && char ≤ '~' && !"\"#<>".toList.contains char

/-! ## Authorities -/

/-- What has been seen since the start of the authority, or since the user's part
or a bracketed host ended. -/
structure AuthorityScan where
  colons : Nat
  opened : Bool
  closed : Bool
  percent : Bool

def mostColons : Nat := 8

def AuthorityScan.next (scan : AuthorityScan) (char : Char) : Option AuthorityScan :=
  match char with
  | ':' =>
      if mostColons ≤ scan.colons then none
      else some { scan with colons := scan.colons + 1 }
  | '[' =>
      if scan.percent || scan.opened then none else some { scan with opened := true }
  | ']' =>
      if !scan.opened || scan.closed then none
      else some { scan with closed := true, colons := 0, percent := false }
  | '@' => some { scan with colons := 0, percent := false }
  | '%' => some { scan with percent := true }
  | _ => if isAuthorityChar char then some scan else none

/-- At most one colon outside brackets and outside the user's part, percent signs
only there, brackets in pairs, and something after the user's part. -/
def isAuthority (chars : List Char) : Bool :=
  match chars.foldlM AuthorityScan.next ⟨0, false, false, false⟩ with
  | none => false
  | some scan =>
      scan.opened == scan.closed && scan.colons ≤ 1 && !scan.percent &&
        chars.getLast? != some '@'

/-! ## Reading -/

def readTarget (chars : List Char) : Option Target :=
  let path := chars.takeWhile (fun char => char != '?' && char != '#')
  if !path.all isPathChar then none
  else
    match chars.dropWhile (fun char => char != '?' && char != '#') with
    | '?' :: rest =>
        let query := rest.takeWhile (· != '#')
        if query.all isQueryChar then
          some ⟨String.ofList path, some (String.ofList query)⟩
        else none
    | _ => some ⟨String.ofList path, none⟩

def longestScheme : Nat := 64

def normalScheme (scheme : List Char) : String :=
  let small := String.ofList (scheme.map Char.toLower)
  if small == "http" || small == "https" then small else String.ofList scheme

def splitScheme (chars : List Char) : Option (List Char × List Char) :=
  match chars.dropWhile isSchemeChar with
  | ':' :: '/' :: '/' :: rest => some (chars.takeWhile isSchemeChar, rest)
  | _ => none

def readAbsolute (scheme chars : List Char) : Option Uri :=
  let authority := chars.takeWhile (fun char => !isTargetMark char)
  if longestScheme < scheme.length || authority.isEmpty ||
      !isAuthority authority then none
  else
    (readTarget (chars.dropWhile (fun char => !isTargetMark char))).map
      (.absolute ⟨normalScheme scheme, String.ofList authority⟩)

def ofChars? (chars : List Char) : Option Uri :=
  match chars with
  | [] => none
  | '/' :: _ => (readTarget chars).map .target
  | _ =>
      match splitScheme chars with
      | some (scheme, rest) => readAbsolute scheme rest
      | none =>
          if isAuthority chars then some (.authority (String.ofList chars))
          else none

/-- An address has fewer than 65535 bytes. -/
def ofText? (text : String) : Option Uri :=
  if 65535 ≤ text.utf8ByteSize then none else ofChars? text.toList

end Uri

end TracedEval.Http

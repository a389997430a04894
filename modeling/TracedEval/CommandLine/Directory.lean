/-!
# Directories

A directory holds texts under paths below it, and is read the way an operating
system does it: name by name, where one dot stays and two dots go up.  Nothing is
known of what lies above it.
-/

namespace TracedEval.CommandLine

inductive PathFault where
  | missing
  | notDirectory
  | isDirectory
  | nameTooLong
  deriving DecidableEq, Repr, Inhabited

def PathFault.message : PathFault → String
  | .missing => "No such file or directory (os error 2)"
  | .notDirectory => "Not a directory (os error 20)"
  | .isDirectory => "Is a directory (os error 21)"
  | .nameTooLong => "File name too long (os error 36)"

abbrev Files := String → Except String String

abbrev Names := List (List Char)

structure Directory where
  files : List (Names × String)
  deriving Inhabited

namespace Directory

def splitPath : List Char → Names
  | [] => [[]]
  | char :: rest =>
      if char = '/' then [] :: splitPath rest
      else
        match splitPath rest with
        | [] => [[char]]
        | name :: names => (char :: name) :: names

def namesOf (path : List Char) : Names :=
  (splitPath path).filter (!·.isEmpty)

def ofFiles (files : List (String × String)) : Directory :=
  ⟨files.map (fun (path, text) => (namesOf path.toList, text))⟩

/-- What a path leads to: a directory below this one or itself, one above it, or a
file. -/
inductive Place where
  | below (names : Names)
  | above
  | file (text : String)
  deriving Inhabited

def holds (directory : Directory) (names : Names) : Bool :=
  directory.files.any (fun (path, _) =>
    names.length < path.length && names.isPrefixOf path)

def longestName : Nat := 255
def longestPath : Nat := 4095

def enter (directory : Directory) (names : Names) (name : List Char) :
    Except PathFault Place :=
  let inner := names ++ [name]
  if longestName < (String.ofList name).utf8ByteSize then .error .nameTooLong
  else
    match directory.files.lookup inner with
    | some text => .ok (.file text)
    | none =>
        if directory.holds inner then .ok (.below inner) else .error .missing

def step (directory : Directory) (place : Place) (name : List Char) :
    Except PathFault Place :=
  match place, name with
  | .file _, _ => .error .notDirectory
  | place, ['.'] => .ok place
  | .above, ['.', '.'] => .ok .above
  | .below [], ['.', '.'] => .ok .above
  | .below names, ['.', '.'] => .ok (.below names.dropLast)
  | .above, name =>
      .error (if longestName < (String.ofList name).utf8ByteSize then .nameTooLong
        else .missing)
  | .below names, name => directory.enter names name

/-- A slash at the end of a path asks for a directory. -/
def follow (directory : Directory) (path : List Char) : Except PathFault Place :=
  let start := if path.head? = some '/' then .above else .below []
  let names := namesOf path
  let names := if path.getLast? = some '/' then names ++ [['.']] else names
  names.foldlM directory.step start

def read (directory : Directory) (path : String) : Except PathFault String :=
  if path.isEmpty then .error .missing
  else if longestPath < path.utf8ByteSize then .error .nameTooLong
  else
    match directory.follow path.toList with
    | .error fault => .error fault
    | .ok (.file text) => .ok text
    | .ok _ => .error .isDirectory

def toFiles (directory : Directory) : Files :=
  fun path => (directory.read path).mapError PathFault.message

end Directory

end TracedEval.CommandLine

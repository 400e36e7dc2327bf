import ByteAsm.CommandLine.Run

namespace ByteAsm.CommandLine

abbrev Directory := Table Text Text

namespace Directory

def nameLimit : Nat := 255

def pathLimit : Nat := 4095

def parts (path : Text) : List Text :=
  go [] [] path
where
  go : (part : Text) → (done : List Text) → Text → List Text
    | part, done, [] => (part.reverse :: done).reverse
    | part, done, c :: rest =>
      if c == '/'.toUInt8 then go [] (part.reverse :: done) rest else go (c :: part) done rest

inductive Place
  | here
  | file (name : Text)
  | folder (name : Text)
  | below (name : Text)
  | outside
  | tooLong

def follow (path : Text) : Place :=
  let all := parts path
  let steps := all.filter fun part => !part.isEmpty && part != Text.ofString "."
  if pathLimit < path.length ∨ steps.any (nameLimit < ·.length) then .tooLong
  else if path.isEmpty || path.head? == some '/'.toUInt8 || steps.contains (Text.ofString "..") then
    .outside
  else match steps with
    | [] => .here
    | [name] => if all.getLast? == some name then .file name else .folder name
    | name :: _ => .below name

def cannotOpen (path : Text) (reason : String) : Text :=
  Text.ofString "open " ++ path ++ Text.ofString ": " ++ Text.ofString reason

def missing (path : Text) : Text :=
  cannotOpen path "no such file or directory"

def notThrough (d : Directory) (path name : Text) : Text :=
  if (d.find? name).isSome then cannotOpen path "not a directory" else missing path

-- Reads a file. The directory itself opens, but cannot be read.
def readFile (path : Text) (d : Directory) : Except Text Source :=
  match follow path with
  | .here =>
    let report := Text.ofString "read " ++ path ++ Text.ofString ": is a directory"
    .ok { text := [], failure := some (.fault report) }
  | .file name =>
    match d.find? name with
    | some text => .ok { text }
    | none => .error (missing path)
  | .folder name | .below name => .error (notThrough d path name)
  | .outside => .error (missing path)
  | .tooLong => .error (cannotOpen path "file name too long")

def writeFile (path : Text) (bytes : List UInt8) (d : Directory) : Except Text Directory :=
  match follow path with
  | .here => .error (cannotOpen path "is a directory")
  | .file name => .ok (d.insert name bytes)
  | .folder name =>
    .error (if (d.find? name).isSome then cannotOpen path "not a directory"
      else cannotOpen path "is a directory")
  | .below name => .error (notThrough d path name)
  | .outside => .error (missing path)
  | .tooLong => .error (cannotOpen path "file name too long")

def host (input : Text) : Host (StateM Directory) where
  standardInput := pure input
  readFile path := do return readFile path (← get)
  writeFile path bytes := do
    match writeFile path bytes (← get) with
    | .ok d => set d; return .ok ()
    | .error reason => return .error reason

def run (input : Text) (args : List Text) (d : Directory) : Outcome × Directory :=
  CommandLine.run (host input) args d

end Directory

end ByteAsm.CommandLine

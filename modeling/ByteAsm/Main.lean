import ByteAsm.CommandLine.Run

namespace ByteAsm.CommandLine

def ofBytes (bytes : ByteArray) : Text :=
  bytes.toList

def toBytes (t : Text) : ByteArray :=
  ⟨t.toArray⟩

def toString (t : Text) : String :=
  String.ofList t.chars

partial def readToEnd (stream : IO.FS.Stream) (done : ByteArray) : IO ByteArray := do
  let chunk ← stream.read 65536
  if chunk.isEmpty then return done else readToEnd stream (done ++ chunk)

def openFault (path : Text) (e : IO.Error) : Text :=
  let reason :=
    match e with
    | .noFileOrDirectory .. => "no such file or directory"
    | .permissionDenied .. => "permission denied"
    | .inappropriateType .. => "is a directory"
    | e => e.toString
  Text.ofString "open " ++ path ++ Text.ofString ": " ++ Text.ofString reason

def machine : Host IO where
  standardInput := do return ofBytes (← readToEnd (← IO.getStdin) .empty)
  readFile path := do
    try return .ok { text := ofBytes (← IO.FS.readBinFile (toString path)) }
    catch e => return .error (openFault path e)
  writeFile path bytes := do
    try
      IO.FS.writeBinFile (toString path) (toBytes bytes)
      return .ok ()
    catch e => return .error (openFault path e)

def Message.line : Message → Text
  | usage t => t
  | info t => Text.ofString "I] " ++ t
  | fatal t => Text.ofString "F] " ++ t

end ByteAsm.CommandLine

open ByteAsm in
def main (args : List String) : IO UInt32 := do
  let o ← CommandLine.run CommandLine.machine (args.map Text.ofString)
  let error ← IO.getStderr
  for message in o.log do
    error.write (CommandLine.toBytes (message.line ++ ['\n'.toUInt8]))
  (← IO.getStdout).write (CommandLine.toBytes o.output)
  return UInt32.ofNat o.exit

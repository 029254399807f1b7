import DocQuery.Command.Run

/-!
# The command line

Reads the words and the variables that a command depends on, runs the command and prints its result.
No network is attached: every query fails as one whose server does not answer, however its address is
written.
-/

set_option autoImplicit false

namespace DocQuery

/-- How the command line is used. -/
def usage : String :=
  "usage: [--log-format text|json] extract [--path PATH] [--as KIND] [--each PATH] [FILE]\n" ++
  "       [--log-format text|json] query [--config FILE] [--endpoint URL] [--secret SECRET] EXPR"

/-- The reason why a source can not be read. -/
def readFault : IO.Error → String
  | .noFileOrDirectory _ _ _ => "No such file or directory (os error 2)"
  | .permissionDenied _ _ _ => "Permission denied (os error 13)"
  | .inappropriateType _ _ _ => "Is a directory (os error 21)"
  | fault => fault.toString

/-- The text of bytes, which have to be UTF-8. -/
def decodeText (bytes : ByteArray) : Except String String :=
  match String.fromUTF8? bytes with
  | some text => .ok text
  | none => .error "stream did not contain valid UTF-8"

/-- All bytes of a stream. -/
def readAll (stream : IO.FS.Stream) : IO ByteArray := do
  let mut bytes := ByteArray.empty
  let mut more := true
  while more do
    let next ← stream.read 65536
    bytes := bytes ++ next
    more := !next.isEmpty
  return bytes

/-- The contents of a source, or the reason why there are none. -/
def Source.read (source : Source) : IO (Except String String) := do
  try
    match source with
    | .nothing => return .ok ""
    | .standardInput => return decodeText (← readAll (← IO.getStdin))
    | .file name => return decodeText (← IO.FS.readBinFile name)
  catch fault => return .error (readFault fault)

end DocQuery

open DocQuery in
/-- Run the command line. -/
def main (words : List String) : IO UInt32 := do
  let endpoint ← IO.getEnv ClientConfig.endpointVariable
  let secret ← IO.getEnv ClientConfig.secretVariable
  let environment := fun name =>
    if name = ClientConfig.endpointVariable then endpoint
    else if name = ClientConfig.secretVariable then secret
    else none
  match Invocation.ofWords? environment words with
  | none =>
      IO.eprintln usage
      return 2
  | some invocation =>
      let contents ← invocation.command.source.read
      match invocation.command.run (fun url _ => url) Network.unreachable contents with
      | .ok v =>
          IO.println v.text
          return 0
      | .error failure =>
          IO.eprintln failure.report
          return 1

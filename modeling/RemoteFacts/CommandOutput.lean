import RemoteFacts.Json.Record
import RemoteFacts.Text.Utf8
import RemoteFacts.Width

/-!
# Command outputs

* `CommandOutput` : exit code and bytes of one command;
* `CommandOutput.ofJson?` : reads one from a reply;
* `CommandOutput.succeeded`, `CommandOutput.text`, `CommandOutput.firstLine?`.
-/

namespace RemoteFacts

/-- What a command left behind. -/
structure CommandOutput where
  exitCode : Int
  stdout : List UInt8
  stderr : List UInt8
  deriving Repr, Inhabited, DecidableEq

namespace CommandOutput

/-- Bytes come as a string, as an array of numbers below 256, or as `null` for none. -/
def bytes? : Json → Option (List UInt8)
  | .null => some []
  | .text s => some (Text.Utf8.encode s)
  | .array items => items.mapM fun v => (v.natUpTo? 255).map UInt8.ofNat
  | _ => none

/-- An output as a reply gives it; the exit code fits 32 bits and the bytes may be left out. -/
def ofJson? (v : Json) : Option CommandOutput := do
  match ← v.record? ["exit_code", "stdout", "stderr"] with
  | [code, out, err] =>
    let exitCode ← (← code).intWithin? Width.minInt32 Width.maxInt32
    let stdout ← Json.orDefault [] bytes? out
    let stderr ← Json.orDefault [] bytes? err
    pure { exitCode, stdout, stderr }
  | _ => none

/-- Whether the command exited with code zero. -/
def succeeded (o : CommandOutput) : Bool := o.exitCode == 0

/-- What the command printed, with U+FFFD for bytes that are no text. -/
def text (o : CommandOutput) : String := Text.Utf8.decodeLossy o.stdout

/-- The characters before the first line feed, without carriage returns at their end. -/
def firstLineChars (cs : List Char) : List Char :=
  ((cs.takeWhile (· != '\n')).reverse.dropWhile (· == '\r')).reverse

/-- The first line that the command printed, unless it is empty. -/
def firstLine? (o : CommandOutput) : Option String :=
  match firstLineChars o.text.toList with
  | [] => none
  | cs => some (String.ofList cs)

end CommandOutput

end RemoteFacts

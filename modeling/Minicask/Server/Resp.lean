import Minicask.Text

/-!
# The Redis wire protocol

`resp.rs`: replies and how they are written and read, and commands as they are read.
A reader takes bytes from the front of a string and leaves the rest.
-/

namespace Minicask
namespace Resp

def maxBulkLen : Nat := 512 * 1024 * 1024

def maxArrayLen : Nat := 1024 * 1024

inductive Reply where
  | simple (s : String)
  | error (s : String)
  | integer (n : Int64)
  | bulk (bytes : Bytes)
  | null
  | array (items : List Reply)

def crlf : Bytes := [13, 10]

def decimal (n : Int) : Bytes :=
  Text.asBytes (toString n)

namespace Reply

def ok : Reply := simple "OK"

def err (message : String) : Reply :=
  error ("ERR " ++ message)

mutual

def writeTo : Reply -> Bytes
  | simple s => 43 :: (Text.asBytes s ++ crlf)
  | error s => 45 :: (Text.asBytes s ++ crlf)
  | integer n => 58 :: (decimal n.toInt ++ crlf)
  | bulk bytes => 36 :: (decimal bytes.length ++ crlf ++ (bytes ++ crlf))
  | null => 36 :: ([45, 49] ++ crlf)
  | array items => 42 :: (decimal items.length ++ crlf ++ writeAll items)

def writeAll : List Reply -> Bytes
  | [] => []
  | item :: items => writeTo item ++ writeAll items

end

end Reply

/-!
# Reading
-/

/-- What comes back instead of a value. -/
inductive ReadError where
  | invalidData (detail : String)
  | unexpectedEof (detail : String)
deriving Repr, DecidableEq

def readUntil : Bytes -> Bytes × Bytes
  | [] => ([], [])
  | byte :: rest =>
      if byte = 10 then ([byte], rest)
      else
        let (line, rest) := readUntil rest
        (byte :: line, rest)

def popIf (byte : UInt8) (line : Bytes) : Bytes :=
  if line.getLast? = some byte then line.dropLast else line

def readLine (input : Bytes) : Option Bytes × Bytes :=
  let (line, rest) := readUntil input
  if line.isEmpty then (none, rest) else (some (popIf 13 (popIf 10 line)), rest)

def text (bytes : Bytes) : Except ReadError String :=
  match Text.fromUtf8 bytes with
  | some s => Except.ok s
  | none =>
      Except.error (ReadError.invalidData "non-utf8 bytes in a protocol line")

def readBulk (len : Nat) (input : Bytes) : Except ReadError (Bytes × Bytes) :=
  if input.length < len + 2 then
    Except.error (ReadError.unexpectedEof "failed to fill whole buffer")
  else if (input.drop len).take 2 ≠ crlf then
    Except.error
      (ReadError.invalidData "bulk string is not terminated by CRLF")
  else Except.ok (input.take len, input.drop (len + 2))

/-- The number after a `$` or `*`; nothing for null. -/
def parseLen (digits : Bytes) (max : Nat) : Except ReadError (Option Nat) :=
  match text digits with
  | Except.error e => Except.error e
  | Except.ok s =>
      match Text.parseI64 s with
      | none => Except.error (ReadError.invalidData "length is not a number")
      | some n =>
          if n = -1 then Except.ok none
          else if n < 0 then
            Except.error (ReadError.invalidData "negative length")
          else if n.toInt.toNat > max then
            Except.error
              (ReadError.invalidData "length exceeds the protocol limit")
          else Except.ok (some n.toInt.toNat)

/-- As many values as were announced, one after another. -/
def readItems {item : Type}
    (read : Bytes -> Except ReadError (item × Bytes)) :
    Nat -> Bytes -> Except ReadError (List item × Bytes)
  | 0, input => Except.ok ([], input)
  | count + 1, input =>
      match read input with
      | Except.error e => Except.error e
      | Except.ok (item, rest) =>
          match readItems read count rest with
          | Except.error e => Except.error e
          | Except.ok (items, rest) => Except.ok (item :: items, rest)

/-- `read_reply`.  Each nested call has fewer bytes left, so their number is turns
enough. -/
def readReplyLoop : Nat -> Bytes -> Except ReadError (Reply × Bytes)
  | 0, _ => Except.error (ReadError.unexpectedEof "")
  | turns + 1, input =>
      match readLine input with
      | (none, _) =>
          Except.error (ReadError.unexpectedEof
            "connection closed while waiting for a reply")
      | (some [], _) =>
          Except.error
            (ReadError.invalidData "empty line where a reply was expected")
      | (some (kind :: body), rest) =>
          if kind = 43 then
            (text body).map (fun s => (Reply.simple s, rest))
          else if kind = 45 then
            (text body).map (fun s => (Reply.error s, rest))
          else if kind = 58 then
            match text body with
            | Except.error e => Except.error e
            | Except.ok s =>
                match Text.parseI64 s with
                | some n => Except.ok (Reply.integer n, rest)
                | none =>
                    Except.error
                      (ReadError.invalidData "integer reply is not a number")
          else if kind = 36 then
            match parseLen body maxBulkLen with
            | Except.error e => Except.error e
            | Except.ok none => Except.ok (Reply.null, rest)
            | Except.ok (some len) =>
                (readBulk len rest).map (fun (bytes, rest) =>
                  (Reply.bulk bytes, rest))
          else if kind = 42 then
            match parseLen body maxArrayLen with
            | Except.error e => Except.error e
            | Except.ok none => Except.ok (Reply.null, rest)
            | Except.ok (some count) =>
                (readItems (readReplyLoop turns) count rest).map
                  (fun (items, rest) => (Reply.array items, rest))
          else
            Except.error (ReadError.invalidData
              ("unknown reply type " ++ (Char.ofNat kind.toNat).quote))

def readReply (input : Bytes) : Except ReadError (Reply × Bytes) :=
  readReplyLoop (input.length + 1) input

def isAsciiWhitespace (byte : UInt8) : Bool :=
  byte = 32 || byte = 9 || byte = 10 || byte = 12 || byte = 13

def readArgument (input : Bytes) : Except ReadError (Bytes × Bytes) :=
  match readLine input with
  | (none, _) =>
      Except.error (ReadError.invalidData "connection closed inside a command")
  | (some header, rest) =>
      if header.head? ≠ some 36 then
        Except.error (ReadError.invalidData
          "expected a bulk string inside a command array")
      else
        match parseLen (header.drop 1) maxBulkLen with
        | Except.error e => Except.error e
        | Except.ok none =>
            Except.error (ReadError.invalidData
              "null bulk string inside a command array")
        | Except.ok (some len) => readBulk len rest

/-- The arguments of one command, and what follows it; no arguments at the end of the
stream. -/
def readCommand (input : Bytes) :
    Except ReadError (Option (List Bytes) × Bytes) :=
  match readLine input with
  | (none, rest) => Except.ok (none, rest)
  | (some line, rest) =>
      if line.isEmpty then Except.ok (some [], rest)
      else if line.head? ≠ some 42 then
        Except.ok (some ((line.splitOnP isAsciiWhitespace).filter
          (fun word => !word.isEmpty)), rest)
      else
        match parseLen (line.drop 1) maxArrayLen with
        | Except.error e => Except.error e
        | Except.ok none => Except.ok (some [], rest)
        | Except.ok (some count) =>
            (readItems readArgument count rest).map
              (fun (args, rest) => (some args, rest))

end Resp
end Minicask

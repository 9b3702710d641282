import Mathlib.Data.List.Basic

/-!
# The write-ahead log

`LogBasedRecovery.cpp` appends one line per record to the log file, `transactionId`,
`operation`, `key` and `value` separated by single spaces and ended by `std::endl`, and
reads the file back with `infile >> transactionId >> operation >> key >> value` until an
extraction fails. Writing goes through an `ofstream` opened in append mode: once the stream
has failed, nothing more reaches the file, while the in-memory `log_buffer` still grows.

Reading is whitespace tokenisation, not the inverse of writing: an empty field writes
nothing between its separators, so the reader takes the next record's first token for it.
-/

namespace DistributedCaching.Recovery

/-- A record as `append_log` receives it and `read_logs` returns it. -/
structure LogRecord where
  transactionId : Int
  operation : String
  key : String
  value : String
  deriving DecidableEq, Repr

/-- The line `append_log` writes for a record. -/
def LogRecord.line (record : LogRecord) : String :=
  toString record.transactionId ++ " " ++ record.operation ++ " " ++ record.key ++ " " ++
    record.value ++ "\n"

/-- The log: the text of the file, the in-memory buffer, and whether the output stream is
still good. -/
structure WriteAheadLog where
  logFile : String
  logBuffer : List LogRecord
  good : Bool
  deriving DecidableEq, Repr

namespace WriteAheadLog

/-- `WriteAheadLog(file_path)` over a file holding `contents` (opened for appending). -/
def create (contents : String) : WriteAheadLog :=
  ⟨contents, [], true⟩

/-- The record's line reaches the file only while the stream is good; the buffer always
takes the record. -/
def appendLog (wal : WriteAheadLog) (record : LogRecord) : WriteAheadLog :=
  { wal with
    logFile := if wal.good then wal.logFile ++ record.line else wal.logFile,
    logBuffer := wal.logBuffer ++ [record] }

/-- A write error puts the stream into a failed state, which no code clears. -/
def streamFails (wal : WriteAheadLog) : WriteAheadLog :=
  { wal with good := false }

end WriteAheadLog

/-! ## Reading the file back -/

/-- The characters the `C` locale classifies as white space. -/
def isSpace (c : Char) : Bool :=
  c = ' ' || c = '\t' || c = '\n' || c = '\r' || c.toNat = 11 || c.toNat = 12

def skipSpace : List Char → List Char
  | [] => []
  | c :: rest => if isSpace c then skipSpace rest else c :: rest

/-- `>>` into a `std::string`: skip white space, then take the longest run of other
characters; fails when no character is left. -/
def readWord (input : List Char) : Option (String × List Char) :=
  match skipSpace input with
  | [] => none
  | start => some (⟨start.takeWhile (fun c => !isSpace c)⟩,
      start.dropWhile (fun c => !isSpace c))

/-- The value of a run of decimal digits. -/
def digitsValue (digits : List Char) : Nat :=
  digits.foldl (fun acc digit => 10 * acc + (digit.toNat - '0'.toNat)) 0

/-- `>>` into an `int`: skip white space, an optional sign, then at least one decimal
digit; fails without digits or when the value does not fit in 32 bits. -/
def readInt (input : List Char) : Option (Int × List Char) :=
  let (negative, unsigned) := match skipSpace input with
    | '-' :: rest => (true, rest)
    | '+' :: rest => (false, rest)
    | start => (false, start)
  let digits := unsigned.takeWhile Char.isDigit
  let value : Int := if negative then -(digitsValue digits : Int) else digitsValue digits
  if digits = [] ∨ value < -2147483648 ∨ value > 2147483647 then
    none
  else
    some (value, unsigned.dropWhile Char.isDigit)

/-- One evaluation of the loop condition of `read_logs`. -/
def readRecord (input : List Char) : Option (LogRecord × List Char) := do
  let (transactionId, afterId) ← readInt input
  let (operation, afterOperation) ← readWord afterId
  let (key, afterKey) ← readWord afterOperation
  let (value, afterValue) ← readWord afterKey
  pure (⟨transactionId, operation, key, value⟩, afterValue)

/-- The loop of `read_logs`; every record read consumes a character, so the length of the
input is enough fuel. -/
def readRecords : Nat → List Char → List LogRecord
  | 0, _ => []
  | fuel + 1, input =>
      match readRecord input with
      | none => []
      | some (record, rest) => record :: readRecords fuel rest

/-- `read_logs` on the contents of the log file. -/
def readLogs (logFile : String) : List LogRecord :=
  readRecords logFile.length logFile.toList

end DistributedCaching.Recovery

import DistributedCaching.FaultTolerance.WriteAheadLog

/-!
# Reading the log back

`read_logs` reads a file written by `append_log` back as whitespace-separated tokens. This
module proves what it returns for every file written to an initially empty log followed by a
torn last write. The torn write is a proper prefix of one more record's line, as a crash in
the middle of `append_log` leaves it, cut at a character boundary: the file is modelled as a
string of characters, so a tear between the bytes of one multi-byte character is not
covered.

Records read back exactly as written when their id fits in an `int` and their three text
fields are non-empty and hold no white space. A tail cut before the value is not a record.
A tail cut inside the value is read as one more record, with the part of the value that
reached the file. `read_logs` has no check that would skip it. Records with an empty value,
which is every `REMOVE`, are outside the law: `read_logs` does not read them back.
-/

namespace DistributedCaching.Recovery

/-! ## Characters and digits -/

theorem isDigit_eq_false_of_isSpace {c : Char} (h : isSpace c) : c.isDigit = false := by
  simp only [isSpace, Bool.or_eq_true, decide_eq_true_eq] at h
  rcases h with ((((rfl | rfl) | rfl) | rfl) | code) | code <;>
    first | rfl | rw [← Char.ofNat_toNat c, code]; rfl

theorem isSpace_eq_false_of_isDigit {c : Char} (h : c.isDigit) : isSpace c = false := by
  cases space : isSpace c
  · rfl
  · simp [isDigit_eq_false_of_isSpace space] at h

theorem digitChar_digit : ∀ k < 10,
    (Nat.digitChar k).isDigit ∧ (Nat.digitChar k).toNat - '0'.toNat = k := by
  decide

theorem digitsValue_append_singleton (digits : List Char) (d : Char) :
    digitsValue (digits ++ [d]) = 10 * digitsValue digits + (d.toNat - '0'.toNat) := by
  simp [digitsValue]

theorem toDigitsCore_succ (fuel n : Nat) (ds : List Char) :
    Nat.toDigitsCore 10 (fuel + 1) n ds =
      if n / 10 = 0 then Nat.digitChar (n % 10) :: ds
      else Nat.toDigitsCore 10 fuel (n / 10) (Nat.digitChar (n % 10) :: ds) := rfl

/-- `Nat.toDigitsCore` puts the decimal digits of `n` in front of `ds`, given more fuel
than `n`. -/
theorem toDigitsCore_digits (fuel n : Nat) (ds : List Char) (h : n < fuel) :
    ∃ digits, Nat.toDigitsCore 10 fuel n ds = digits ++ ds ∧ digits ≠ [] ∧
      (∀ c ∈ digits, c.isDigit) ∧ digitsValue digits = n := by
  induction fuel generalizing n ds with
  | zero => omega
  | succ fuel ih =>
    have last := digitChar_digit (n % 10) (Nat.mod_lt n (by decide))
    rw [toDigitsCore_succ]
    split
    · refine ⟨[Nat.digitChar (n % 10)], rfl, by simp, by simpa using last.1, ?_⟩
      rw [← List.nil_append [_], digitsValue_append_singleton, last.2]
      simp only [digitsValue, List.foldl]; omega
    · obtain ⟨digits, eq, -, all, value⟩ := ih (n / 10) (Nat.digitChar (n % 10) :: ds) (by omega)
      refine ⟨digits ++ [Nat.digitChar (n % 10)], by simp [eq], by simp, ?_, ?_⟩
      · simp only [List.mem_append, List.mem_singleton]
        rintro c (hc | rfl)
        exacts [all c hc, last.1]
      · rw [digitsValue_append_singleton, last.2, value]; omega

theorem toDigits_digits (n : Nat) :
    Nat.toDigits 10 n ≠ [] ∧ (∀ c ∈ Nat.toDigits 10 n, c.isDigit) ∧
      digitsValue (Nat.toDigits 10 n) = n := by
  obtain ⟨digits, eq, rest⟩ := toDigitsCore_digits (n + 1) n [] (Nat.lt_succ_self n)
  have unfolded : Nat.toDigits 10 n = Nat.toDigitsCore 10 (n + 1) n [] := rfl
  rw [unfolded, eq, List.append_nil]
  exact rest

/-- The characters `<<` writes for an `int`. -/
theorem toString_toList (id : Int) :
    (toString id).toList = (if id < 0 then ['-'] else []) ++ Nat.toDigits 10 id.natAbs := by
  cases id with
  | ofNat m => rfl
  | negSucc m => simp only [Int.negSucc_lt_zero, ite_true]; rfl

/-- A run of characters that `p` accepts, followed by one it rejects or by the end. -/
theorem takeWhile_dropWhile_run {p : Char → Bool} (run rest : List Char)
    (all : ∀ c ∈ run, p c) (stop : ∀ c ∈ rest.head?, p c = false) :
    (run ++ rest).takeWhile p = run ∧ (run ++ rest).dropWhile p = rest := by
  rw [List.takeWhile_append_of_pos all, List.dropWhile_append_of_pos all]
  cases rest with
  | nil => simp
  | cons c cs => simp [stop c rfl]

/-! ## One field at a time -/

theorem skipSpace_of_not_space {c : Char} (rest : List Char) (h : isSpace c = false) :
    skipSpace (c :: rest) = c :: rest := by
  simp [skipSpace, h]

theorem readInt_nil : readInt [] = none := rfl

theorem readInt_space {c : Char} (rest : List Char) (h : isSpace c) :
    readInt (c :: rest) = readInt rest := by
  simp [readInt, skipSpace, h]

/-- `>>` into an `int` on an optional minus sign and a run of digits, followed by a character
that is not a digit. -/
theorem readInt_signed (negative : Bool) (d : Char) (ds rest : List Char)
    (all : ∀ c ∈ d :: ds, c.isDigit) (stop : ∀ c ∈ rest.head?, c.isDigit = false) :
    readInt ((if negative then ['-'] else []) ++ (d :: ds ++ rest)) =
      let value : Int :=
        if negative then -(digitsValue (d :: ds) : Int) else digitsValue (d :: ds)
      if value < -2147483648 ∨ value > 2147483647 then none else some (value, rest) := by
  obtain ⟨take, drop⟩ := takeWhile_dropWhile_run (d :: ds) rest all stop
  have digit := all d (List.mem_cons_self d ds)
  cases negative
  · rw [if_neg Bool.false_ne_true, List.nil_append, List.cons_append]
    unfold readInt
    rw [skipSpace_of_not_space _ (isSpace_eq_false_of_isDigit digit)]
    split
    rename_i sign
    split at sign
    · rename_i unsigned minus
      obtain ⟨rfl, -⟩ := List.cons.inj minus
      exact absurd digit (by decide)
    · rename_i unsigned plus
      obtain ⟨rfl, -⟩ := List.cons.inj plus
      exact absurd digit (by decide)
    · obtain ⟨rfl, rfl⟩ := Prod.mk.inj sign
      rw [← List.cons_append, take, drop]
      simp only [List.cons_ne_nil, false_or]
  · rw [if_pos rfl, List.singleton_append]
    unfold readInt
    rw [skipSpace_of_not_space _ (by decide)]
    split
    rename_i sign
    split at sign
    · rename_i unsigned minus
      obtain ⟨-, rfl⟩ := List.cons.inj minus
      obtain ⟨rfl, rfl⟩ := Prod.mk.inj sign
      rw [take, drop]
      simp only [List.cons_ne_nil, false_or]
    · rename_i unsigned plus
      cases (List.cons.inj plus).1
    · rename_i notMinus notPlus
      exact (notMinus _ rfl).elim

/-- An id `append_log` wrote reads back, when it fits in an `int`. -/
theorem readInt_toString (id : Int) (rest : List Char) (low : -2147483648 ≤ id)
    (high : id ≤ 2147483647) (stop : ∀ c ∈ rest.head?, c.isDigit = false) :
    readInt ((toString id).toList ++ rest) = some (id, rest) := by
  obtain ⟨nonempty, all, value⟩ := toDigits_digits id.natAbs
  obtain ⟨d, ds, split⟩ := List.exists_cons_of_ne_nil nonempty
  rw [split] at all value
  have signed := readInt_signed (decide (id < 0)) d ds rest all stop
  simp only [decide_eq_true_eq] at signed
  rw [toString_toList, split, List.append_assoc, signed, value]
  split_ifs <;> first | omega | (simp only [Option.some.injEq, Prod.mk.injEq, and_true]; omega)

theorem readInt_sign_digits (negative : Bool) (digits : List Char)
    (all : ∀ c ∈ digits, c.isDigit) :
    readInt ((if negative then ['-'] else []) ++ digits) = none ∨
      ∃ value, readInt ((if negative then ['-'] else []) ++ digits) = some (value, []) := by
  cases digits with
  | nil => cases negative <;> exact .inl rfl
  | cons d ds =>
    have read := readInt_signed negative d ds [] all (by simp)
    rw [List.append_nil] at read
    rw [read]
    dsimp only
    split_ifs <;> simp

/-- A cut inside the id leaves nothing after the number. -/
theorem readInt_take_toString (id : Int) (n : Nat) :
    readInt ((toString id).toList.take n) = none ∨
      ∃ value, readInt ((toString id).toList.take n) = some (value, []) := by
  obtain ⟨-, all, -⟩ := toDigits_digits id.natAbs
  have sign : ((if id < 0 then ['-'] else []) : List Char).take n =
      if decide (id < 0 ∧ 0 < n) then ['-'] else [] := by
    cases n <;> by_cases negative : id < 0 <;> simp [negative]
  rw [toString_toList, List.take_append_eq_append_take, sign]
  exact readInt_sign_digits _ _ (fun c hc => all c (List.mem_of_mem_take hc))

theorem readWord_nil : readWord [] = none := rfl

theorem readWord_space {c : Char} (rest : List Char) (h : isSpace c) :
    readWord (c :: rest) = readWord rest := by
  simp [readWord, skipSpace, h]

theorem readWord_take_space {c : Char} (rest : List Char) (h : isSpace c) (m : Nat) :
    readWord ((c :: rest).take m) = readWord (rest.take (m - 1)) := by
  cases m with
  | zero => rfl
  | succ m => exact readWord_space _ h

/-- `>>` into a string on a run of characters that are not white space, followed by white
space or the end of the input. -/
theorem readWord_token (word rest : List Char) (nonempty : word ≠ [])
    (noSpace : ∀ c ∈ word, isSpace c = false) (stop : ∀ c ∈ rest.head?, isSpace c) :
    readWord (word ++ rest) = some (⟨word⟩, rest) := by
  obtain ⟨w, ws, rfl⟩ := List.exists_cons_of_ne_nil nonempty
  obtain ⟨take, drop⟩ := takeWhile_dropWhile_run (p := fun c => !isSpace c) (w :: ws) rest
    (by simpa using noSpace) (by simpa using stop)
  unfold readWord
  rw [List.cons_append, skipSpace_of_not_space _ (noSpace w (List.mem_cons_self w ws))]
  dsimp only
  rw [← List.cons_append, take, drop]

/-- The same read on the first `m` characters of a token followed by white space. -/
theorem readWord_take (word rest : List Char) (nonempty : word ≠ [])
    (noSpace : ∀ c ∈ word, isSpace c = false) (stop : ∀ c ∈ rest.head?, isSpace c) (m : Nat) :
    readWord ((word ++ rest).take m) =
      if m = 0 then none
      else if m ≤ word.length then some (⟨word.take m⟩, [])
      else some (⟨word⟩, rest.take (m - word.length)) := by
  rw [List.take_append_eq_append_take]
  split_ifs with zero short
  · simp [zero, readWord_nil]
  · rw [Nat.sub_eq_zero_of_le short, List.take_zero]
    exact readWord_token (word.take m) [] (by simp [List.take_eq_nil_iff, zero, nonempty])
      (fun c hc => noSpace c (List.mem_of_mem_take hc)) (by simp)
  · rw [List.take_of_length_le (by omega)]
    refine readWord_token _ _ nonempty noSpace ?_
    rw [List.head?_take, if_neg (by omega)]
    exact stop

/-- Reading a field from the first `m` characters of a token followed by white space, and
then one more field: a field cut short leaves nothing for the next one. -/
theorem bind_readWord_take {β : Type} (word rest : List Char) (nonempty : word ≠ [])
    (noSpace : ∀ c ∈ word, isSpace c = false) (stop : ∀ c ∈ rest.head?, isSpace c) (m : Nat)
    (next : String × List Char → String × List Char → Option β) :
    (readWord ((word ++ rest).take m)).bind (fun field => (readWord field.2).bind (next field)) =
      if m ≤ word.length then none
      else (readWord (rest.take (m - word.length))).bind
        (next (⟨word⟩, rest.take (m - word.length))) := by
  rw [readWord_take word rest nonempty noSpace stop]
  by_cases zero : m = 0
  · simp [zero]
  · by_cases short : m ≤ word.length <;> simp [zero, short, readWord_nil]

/-! ## Records -/

/-- A field `>>` reads back as written: non-empty and free of white space. -/
def Token (field : String) : Prop :=
  field.toList ≠ [] ∧ ∀ c ∈ field.toList, isSpace c = false

instance : DecidablePred Token := fun field =>
  inferInstanceAs (Decidable (field.toList ≠ [] ∧ ∀ c ∈ field.toList, isSpace c = false))

/-- A record whose line `read_logs` reads back: an id in the range of `int` and three
fields that are tokens. -/
structure LogRecord.Readable (record : LogRecord) : Prop where
  low : -2147483648 ≤ record.transactionId
  high : record.transactionId ≤ 2147483647
  operation : Token record.operation
  key : Token record.key
  value : Token record.value

instance (record : LogRecord) : Decidable record.Readable :=
  decidable_of_iff ((-2147483648 ≤ record.transactionId ∧ record.transactionId ≤ 2147483647) ∧
      Token record.operation ∧ Token record.key ∧ Token record.value)
    ⟨fun ⟨⟨low, high⟩, operation, key, value⟩ => ⟨low, high, operation, key, value⟩,
      fun ⟨low, high, operation, key, value⟩ => ⟨⟨low, high⟩, operation, key, value⟩⟩

/-- The part of a record's line before its value. -/
def LogRecord.header (record : LogRecord) : String :=
  toString record.transactionId ++ " " ++ record.operation ++ " " ++ record.key ++ " "

/-- What `read_logs` makes of the first `n` characters of a record's line: nothing while the
cut is before the value, and the record with its value cut short once it is inside it. -/
def LogRecord.tornRead (record : LogRecord) (n : Nat) : List LogRecord :=
  if record.header.length < n then
    [{ record with value := ⟨record.value.toList.take (n - record.header.length)⟩ }]
  else []

theorem LogRecord.line_toList (record : LogRecord) :
    record.line.toList = (toString record.transactionId).toList ++
      ' ' :: (record.operation.toList ++ ' ' :: (record.key.toList ++
        ' ' :: (record.value.toList ++ ['\n']))) := by
  simp [LogRecord.line, String.toList]

theorem LogRecord.header_length (record : LogRecord) :
    record.header.length = (toString record.transactionId).toList.length +
      record.operation.toList.length + record.key.toList.length + 3 := by
  change record.header.toList.length = _
  simp [LogRecord.header, String.toList]
  omega

theorem head_space {c : Char} (h : isSpace c) (rest : List Char) :
    ∀ d ∈ (c :: rest).head?, isSpace d := by
  intro d hd
  simp only [List.head?_cons, Option.mem_def, Option.some.injEq] at hd
  exact hd ▸ h

theorem space_head (rest : List Char) : ∀ c ∈ (' ' :: rest).head?, isSpace c :=
  head_space (by decide) rest

theorem newline_head (rest : List Char) : ∀ c ∈ ('\n' :: rest).head?, isSpace c :=
  head_space (by decide) rest

/-- One evaluation of the loop condition reads a whole line back, and stops before its
newline. -/
theorem readRecord_line (record : LogRecord) (readable : record.Readable) (more : List Char) :
    readRecord (record.line.toList ++ more) = some (record, '\n' :: more) := by
  obtain ⟨low, high, ⟨opNe, opNo⟩, ⟨keyNe, keyNo⟩, ⟨valueNe, valueNo⟩⟩ := readable
  rw [LogRecord.line_toList]
  simp only [List.append_assoc, List.cons_append, readRecord,
    readInt_toString _ (' ' :: _) low high
      (fun c hc => isDigit_eq_false_of_isSpace (space_head _ c hc)), Option.bind_eq_bind, Option.some_bind,
    readWord_space _ (rfl : isSpace ' ' = true),
    readWord_token _ _ opNe opNo (space_head _), readWord_token _ _ keyNe keyNo (space_head _),
    readWord_token _ _ valueNe valueNo (newline_head _)]
  rfl

theorem readRecord_newline (input : List Char) :
    readRecord ('\n' :: input) = readRecord input := by
  simp only [readRecord, readInt_space _ (rfl : isSpace '\n' = true)]

theorem readRecord_of_readInt_exhausts {input : List Char}
    (exhausts : readInt input = none ∨ ∃ value, readInt input = some (value, [])) :
    readRecord input = none := by
  rcases exhausts with none | ⟨value, some⟩ <;> simp [readRecord, *, readWord_nil]

/-- A torn line: nothing, or the record with the part of its value that reached the file. -/
theorem readRecord_take_line (record : LogRecord) (readable : record.Readable) (n : Nat)
    (proper : n < record.line.length) :
    readRecord (record.line.toList.take n) =
      (record.tornRead n).head?.map (fun torn => (torn, [])) := by
  obtain ⟨low, high, ⟨opNe, opNo⟩, ⟨keyNe, keyNo⟩, ⟨valueNe, valueNo⟩⟩ := readable
  replace proper : n < record.line.toList.length := proper
  rw [LogRecord.line_toList] at proper ⊢
  simp only [List.length_append, List.length_cons, List.length_nil] at proper
  unfold LogRecord.tornRead
  rw [LogRecord.header_length]
  by_cases inId : n ≤ (toString record.transactionId).toList.length
  · rw [List.take_append_of_le_length inId,
      readRecord_of_readInt_exhausts (readInt_take_toString _ _), if_neg (by omega)]
    rfl
  obtain ⟨k, rfl⟩ : ∃ k, n = (toString record.transactionId).toList.length + 1 + k :=
    ⟨n - (toString record.transactionId).toList.length - 1, by omega⟩
  rw [List.take_append_eq_append_take, List.take_of_length_le (by omega),
    show (toString record.transactionId).toList.length + 1 + k -
      (toString record.transactionId).toList.length = k + 1 by omega, List.take_succ_cons]
  simp only [readRecord, readInt_toString _ (' ' :: _) low high
      (fun c hc => isDigit_eq_false_of_isSpace (space_head _ c hc)),
    readWord_space _ (rfl : isSpace ' ' = true), Option.bind_eq_bind, Option.some_bind,
    bind_readWord_take _ _ opNe opNo (space_head _),
    readWord_take_space _ (rfl : isSpace ' ' = true),
    bind_readWord_take _ _ keyNe keyNo (space_head _),
    readWord_take _ ['\n'] valueNe valueNo (newline_head [])]
  by_cases cut : k ≤ record.operation.toList.length + record.key.toList.length + 2
  · rw [if_neg (by omega : ¬(_ + _ + _ + 3 < _ + 1 + k))]
    by_cases inOperation : k ≤ record.operation.toList.length
    · rw [if_pos inOperation]
      rfl
    rw [if_neg inOperation]
    by_cases inKey : k - record.operation.toList.length - 1 ≤ record.key.toList.length
    · rw [if_pos inKey]
      rfl
    rw [if_neg inKey, if_pos (by omega)]
    rfl
  · rw [if_neg (by omega), if_neg (by omega), if_neg (by omega), if_pos (by omega),
      if_pos (by omega : _ + _ + _ + 3 < _ + 1 + k)]
    simp only [Option.some_bind, List.head?_cons, Option.map_some']
    congr 5
    omega

/-! ## The loop of `read_logs` -/

theorem readRecords_nil (fuel : Nat) : readRecords fuel [] = [] := by
  cases fuel <;> rfl

theorem readRecords_newline (fuel : Nat) (input : List Char) :
    readRecords fuel ('\n' :: input) = readRecords fuel input := by
  cases fuel <;> simp only [readRecords, readRecord_newline]

theorem readRecords_take_line (record : LogRecord) (readable : record.Readable) (n : Nat)
    (proper : n < record.line.length) (fuel : Nat) (enough : n ≤ fuel) :
    readRecords fuel (record.line.toList.take n) = record.tornRead n := by
  cases fuel with
  | zero => simp [readRecords, LogRecord.tornRead, Nat.le_zero.mp enough]
  | succ fuel =>
    rw [readRecords, readRecord_take_line record readable n proper]
    unfold LogRecord.tornRead
    split_ifs <;> simp [readRecords_nil]

/-- The lines of `written`, then a torn line of `record`: `read_logs` returns the written
records and what it makes of the torn line. -/
theorem readRecords_lines (record : LogRecord) (readable : record.Readable) (n : Nat)
    (proper : n < record.line.length) (written : List LogRecord)
    (readableWritten : ∀ earlier ∈ written, earlier.Readable) (fuel : Nat)
    (enough : ((written.map fun earlier => earlier.line.toList).flatten ++
      record.line.toList.take n).length ≤ fuel) :
    readRecords fuel ((written.map fun earlier => earlier.line.toList).flatten ++
      record.line.toList.take n) = written ++ record.tornRead n := by
  induction written generalizing fuel with
  | nil =>
    have : n < record.line.toList.length := proper
    simp only [List.map_nil, List.flatten_nil, List.nil_append, List.length_take] at enough ⊢
    exact readRecords_take_line record readable n proper fuel (by omega)
  | cons earlier written ih =>
    have lineLength : 0 < earlier.line.toList.length := by
      rw [LogRecord.line_toList]
      simp only [List.length_append, List.length_cons]
      omega
    simp only [List.map_cons, List.flatten_cons, List.append_assoc, List.length_append]
      at enough ⊢
    obtain ⟨fuel, rfl⟩ : ∃ rest, fuel = rest + 1 := ⟨fuel - 1, by omega⟩
    rw [readRecords, readRecord_line earlier (readableWritten earlier (List.mem_cons_self _ _))]
    dsimp only
    rw [readRecords_newline, ih (fun r hr => readableWritten r (List.mem_cons_of_mem _ hr)) fuel
        (by rw [List.length_append]; omega)]
    rfl

/-- What `append_log` calls leave in a log file while its stream is good. -/
theorem appendLogs_logFile (written : List LogRecord) (wal : WriteAheadLog)
    (good : wal.good = true) :
    (written.foldl WriteAheadLog.appendLog wal).logFile.toList =
      wal.logFile.toList ++ (written.map fun earlier => earlier.line.toList).flatten := by
  induction written generalizing wal with
  | nil => simp
  | cons earlier written ih =>
    rw [List.foldl_cons, ih (wal.appendLog earlier) good]
    simp [WriteAheadLog.appendLog, good, String.toList]

/-- Readable records written to an empty log, followed by the first `n` characters of one
more readable record's line, read back as the records followed by what the torn line gives. -/
theorem readLogs_written_and_torn (written : List LogRecord) (record : LogRecord) (n : Nat)
    (readable : ∀ each ∈ record :: written, each.Readable) (proper : n < record.line.length) :
    readLogs ((written.foldl WriteAheadLog.appendLog (WriteAheadLog.create "")).logFile ++
      ⟨record.line.toList.take n⟩) = written ++ record.tornRead n := by
  have file : ((written.foldl WriteAheadLog.appendLog (WriteAheadLog.create "")).logFile ++
      ⟨record.line.toList.take n⟩).toList =
      (written.map fun earlier => earlier.line.toList).flatten ++ record.line.toList.take n := by
    simpa [String.toList] using appendLogs_logFile written (WriteAheadLog.create "") rfl
  unfold readLogs
  rw [show ∀ s : String, s.length = s.toList.length from fun _ => rfl, file]
  exact readRecords_lines record (readable record (List.mem_cons_self _ _)) n proper written
    (fun each h => readable each (List.mem_cons_of_mem _ h)) _ le_rfl

/-- A record, and a crash after fourteen characters of the next one's line. -/
theorem tornAfterOneRecord :
    (∀ each ∈ [(⟨2, "PUT", "key2", "value2"⟩ : LogRecord), ⟨1, "PUT", "key1", "value1"⟩],
        each.Readable) ∧
      14 < (⟨2, "PUT", "key2", "value2"⟩ : LogRecord).line.length ∧
      readLogs (([(⟨1, "PUT", "key1", "value1"⟩ : LogRecord)].foldl WriteAheadLog.appendLog
          (WriteAheadLog.create "")).logFile ++
        ⟨(⟨2, "PUT", "key2", "value2"⟩ : LogRecord).line.toList.take 14⟩) =
        [⟨1, "PUT", "key1", "value1"⟩] ++
          (⟨2, "PUT", "key2", "value2"⟩ : LogRecord).tornRead 14 :=
  ⟨by decide, by decide, readLogs_written_and_torn _ _ _ (by decide) (by decide)⟩

/-- A crash inside the value of the first line leaves a record in the file, and a `REMOVE`
record takes the next record's id for its value. -/
theorem tornValue_read_as_record :
    "1 PUT key1 val".toList = (LogRecord.line ⟨1, "PUT", "key1", "value1"⟩).toList.take 14 ∧
      readLogs ((WriteAheadLog.create "").logFile ++ "1 PUT key1 val") =
        [⟨1, "PUT", "key1", "val"⟩] ∧
      readLogs ([(⟨1, "REMOVE", "key1", ""⟩ : LogRecord), ⟨2, "PUT", "key2", "value2"⟩].foldl
        WriteAheadLog.appendLog (WriteAheadLog.create "")).logFile =
        [⟨1, "REMOVE", "key1", "2"⟩] := by
  decide

end DistributedCaching.Recovery

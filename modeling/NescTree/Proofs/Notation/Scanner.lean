import NescTree.Proofs.Notation.Rows

/-!
# A scanner

A text can also be cut into tokens by a cursor that sees one row at a time.  The cursor
keeps what earlier rows gave to the current token and the place where the token starts; if
nothing of the token has been read when a row ends, that place is taken again on the next
row.  The cursor goes back by one character where a token ends, which is only possible
within a row.  Its loops are given a number of rounds, so that a loop without an end would
run out of them.
-/

namespace NescTree.Notation

/-- A row of a text, with its number. -/
structure Chunk where
  row : Nat
  chars : List Char

def chunksFrom (row : Nat) : List (List Char) → List Chunk
  | [] => []
  | chars :: more => ⟨row, chars⟩ :: chunksFrom (row + 1) more

inductive ScanFailure where
  /-- The cursor was to go back from the start of a row. -/
  | noStepBack
  /-- The text ends inside a string. -/
  | openString (span : Span)
  /-- A loop has no rounds left. -/
  | noRounds
  deriving DecidableEq, Repr

/-- A cursor in a text. -/
structure Scanner where
  text : List Char
  /-- The row the cursor is on.  There is none at the end of the text. -/
  chunk? : Option Chunk
  /-- The rows below. -/
  waiting : List Chunk
  /-- How many characters of the row have been read. -/
  index : Nat
  /-- How many characters of the row stand in front of the current token. -/
  start : Nat
  /-- What earlier rows gave to the current token. -/
  pending : List Char
  /-- Where the current token starts. -/
  origin : Position

namespace Scanner

def place (scanner : Scanner) : Position :=
  match scanner.chunk? with
  | some chunk => ⟨chunk.row, 1 + scanner.index⟩
  | none => ⟨scanner.text.count '\n' + 1, 1⟩

/-- Let a token start at the cursor. -/
def markStart (scanner : Scanner) : Scanner :=
  { scanner with origin := scanner.place, pending := [], start := scanner.index }

/-- What the row of the cursor gives to the current token. -/
def onRow (scanner : Scanner) : List Char :=
  match scanner.chunk? with
  | some chunk => (chunk.chars.take scanner.index).drop scanner.start
  | none => []

/-- The characters of the current token that have been read. -/
def taken (scanner : Scanner) : List Char := scanner.pending ++ scanner.onRow

/-- Go to the next row.  If nothing of the current token has been read, it starts there. -/
def nextChunk (scanner : Scanner) : Scanner :=
  let pending := match scanner.chunk? with
    | some chunk => scanner.pending ++ chunk.chars.drop scanner.start
    | none => scanner.pending
  match scanner.waiting with
  | [] => { scanner with chunk? := none, index := 0, start := 0, pending }
  | chunk :: waiting =>
    { scanner with
      chunk? := some chunk, waiting, index := 0, start := 0, pending
      origin := if pending.isEmpty then ⟨chunk.row, 1⟩ else scanner.origin }

def rowsLeft (scanner : Scanner) : Nat :=
  scanner.waiting.length + if scanner.chunk?.isSome then 1 else 0

theorem rowsLeft_nextChunk {scanner : Scanner} (hchunk : scanner.chunk?.isSome = true) :
    scanner.nextChunk.rowsLeft < scanner.rowsLeft := by
  cases hwaiting : scanner.waiting with
  | nil => simp [rowsLeft, nextChunk, hwaiting, hchunk]
  | cons chunk waiting => simp [rowsLeft, nextChunk, hwaiting, hchunk]

/-- Read a character, if the text goes on. -/
def next (scanner : Scanner) : Option Char × Scanner :=
  match _hchunk : scanner.chunk? with
  | none => (none, scanner)
  | some chunk =>
    match chunk.chars[scanner.index]? with
    | some char => (some char, { scanner with index := scanner.index + 1 })
    | none => scanner.nextChunk.next
termination_by scanner.rowsLeft
decreasing_by exact rowsLeft_nextChunk (by simp [_hchunk])

def stepBack (scanner : Scanner) : Except ScanFailure Scanner :=
  if 0 < scanner.index then .ok { scanner with index := scanner.index - 1 }
  else .error .noStepBack

/-- Read a character if it is the wanted one. -/
def accept (wanted : Char) (scanner : Scanner) : Except ScanFailure (Bool × Scanner) :=
  match scanner.next with
  | (none, moved) => .ok (false, moved)
  | (some char, moved) =>
    if char == wanted then .ok (true, moved) else moved.stepBack.map (false, ·)

/-- Read a character, which has to be there. -/
def require (scanner : Scanner) : Except ScanFailure Scanner :=
  match scanner.next with
  | (none, moved) => .error (.openString (moved.place.span 1))
  | (some _, moved) => .ok moved

def readWord : Nat → Scanner → Except ScanFailure Scanner
  | 0, _ => .error .noRounds
  | rounds + 1, scanner =>
    match scanner.next with
    | (none, moved) => .ok moved
    | (some char, moved) => if isStop char then moved.stepBack else readWord rounds moved

def readComment : Nat → Scanner → Except ScanFailure Scanner
  | 0, _ => .error .noRounds
  | rounds + 1, scanner =>
    match scanner.next with
    | (none, moved) => .ok moved
    | (some char, moved) =>
      if char == '\n' || char == '\r' then .ok moved else readComment rounds moved

def readString : Nat → Scanner → Except ScanFailure Scanner
  | 0, _ => .error .noRounds
  | rounds + 1, scanner => do
    let (escapes, scanner) ← scanner.accept '\\'
    if escapes then
      readString rounds (← scanner.require)
    else
      let (closes, scanner) ← scanner.accept '"'
      if closes then return scanner
      else readString rounds (← scanner.require)

/-- Give out the token that ends at the cursor. -/
def emit (type : TokenType) (scanner : Scanner) : Option Token × Scanner :=
  (some ⟨type, String.ofList scanner.taken, scanner.origin.span scanner.taken.length⟩,
    scanner.markStart)

/-- Skip what ends at the cursor. -/
def ignore (scanner : Scanner) : Option Token × Scanner := (none, scanner.markStart)

/-- Read what starts with a character that was just read. -/
def readPiece (rounds : Nat) (first : Char) (scanner : Scanner) :
    Except ScanFailure (Option Token × Scanner) :=
  if first == '(' then .ok (scanner.emit .opening)
  else if first == ')' then .ok (scanner.emit .closing)
  else if first == ';' then (readComment rounds scanner).map ignore
  else if first == '"' then (readString rounds scanner).map (emit .string)
  else if isGap first then .ok scanner.ignore
  else (readWord rounds scanner).map (emit .word)

def readAll (source : Source) : Nat → Scanner → Except ScanFailure TokenStream
  | 0, _ => .error .noRounds
  | rounds + 1, scanner =>
    match scanner.next with
    | (none, moved) => .ok ⟨[⟨.finish, "EOF", moved.place.span 1⟩], none⟩
    | (some first, moved) =>
      match readPiece (rounds + 1) first moved with
      | .error (.openString span) =>
        .ok ⟨[], some (.malformed .unterminated (source.locate span))⟩
      | .error failure => .error failure
      | .ok (token?, following) =>
        (readAll source rounds following).map fun stream =>
          { stream with tokens := token?.toList ++ stream.tokens }

def begin (text : List Char) : Scanner :=
  (nextChunk ⟨text, none, chunksFrom 1 (rows text), 0, 0, [], .start⟩).markStart

/-- The tokens of a text, read row by row. -/
def scan (rounds : Nat) (name : Option String) (text : String) :
    Except ScanFailure TokenStream :=
  readAll ⟨name, some text⟩ rounds (begin text.toList)

end Scanner

end NescTree.Notation

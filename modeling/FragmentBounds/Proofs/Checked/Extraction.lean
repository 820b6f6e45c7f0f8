import FragmentBounds.Construct
import FragmentBounds.Proofs.Checked.Agreement
import FragmentBounds.Proofs.Checked.Depths
import FragmentBounds.Proofs.Fragment.Tracking

/-! Extraction at work on bytes. Tokens are scanned when they are needed, and
what the machines compute from them is computed in 32 bits. -/
namespace FragmentBounds.Checked

variable {σ α : Type}

def nextToken (cursor : Cursor) : Except Panic (Token × Cursor) := do
  let (piece, next) ← scan cursor
  let stop ← add cursor.pos piece.size
  return (.ofSpan cursor.source piece.tag ⟨cursor.pos, stop⟩, next)

/-- What a machine makes of a token that is no trivia, with the cursor behind it.
The brackets are counted whether or not the machine goes on. -/
def take (machine : Recognizer σ α) (nesting : σ → Nesting) (next : Cursor) (state : σ × Gap)
    (token : Token) : Except Panic (Step (Cursor × σ × Gap) (Except Fault α)) :=
  match token.check with
  | .error fault => return .done (.error fault)
  | .ok token => do
    let _ ← count (nesting state.1) token
    match machine.step state.1 state.2 token with
    | .error fault => return .done (.error fault)
    | .ok (.done result) => return .done (.ok result)
    | .ok (.more state) => return .more (next, state, .closed)

def recognizeRound (machine : Recognizer σ α) (nesting : σ → Nesting) (cursor : Cursor)
    (state : σ × Gap) : Except Panic (Step (Cursor × σ × Gap) (Except Fault α)) := do
  let (token, next) ← nextToken cursor
  if token.tag = .endOfInput then return .done (machine.atEnd state.1 token.span.start)
  else if token.isTrivia then return .more (next, state.1, state.2.extend token)
  else take machine nesting next state token

def recognize (machine : Recognizer σ α) (nesting : σ → Nesting) (source : String) :
    Except Panic (Except Fault α) :=
  if maxOffset < source.utf8ByteSize then .ok (.error (.sourceTooLarge source.utf8ByteSize))
  else loop (recognizeRound machine nesting) (.ofSource source) (machine.start, .closed)

variable {source : String} {cursor : Cursor} {text rest : List Char}

section Tokens

theorem returns_endOfInput (ended : Faces source cursor []) :
    Returns (nextToken cursor) fun result => result.1 = .ofSpan source .endOfInput (.point cursor.pos) := by
  rw [nextToken, scan_nil ended, ended.same]
  refine .add ended.pos_le ?_
  exact .pure rfl

theorem returns_nextToken (here : Faces source cursor text) (more : text ≠ []) :
    Returns (nextToken cursor) fun result => ∃ lexeme rest,
      Lexeme.first? text = some (lexeme, rest) ∧ result.1 = .ofLexeme cursor.pos lexeme ∧
        Faces source result.2 rest ∧ result.2.pos = cursor.pos + lexeme.byteSize := by
  obtain ⟨c, after, rfl⟩ := List.exists_cons_of_ne_nil more
  apply (returns_scan here).bind
  rintro ⟨piece, next⟩ ⟨lexeme, rest, first, same, ahead⟩
  dsimp only at same ahead ⊢
  subst same
  have whole := (Lexeme.first?_cuts first).2
  have pos : next.pos = cursor.pos + lexeme.byteSize := here.pos_eq ahead whole.symm
  have fits := ahead.pos_le
  refine .add (by rw [Lexeme.piece, ← pos]; exact fits) ?_
  refine .pure ⟨lexeme, rest, first, ?_, ahead, pos⟩
  obtain ⟨before, parts, place⟩ := here.place
  have cut : Text.sliceBytes? cursor.pos (cursor.pos + lexeme.byteSize) source.toList =
      some lexeme.text := by
    rw [parts, ← whole, ← place, ← List.append_assoc]
    exact Text.sliceBytes?_append before lexeme.text rest
  simp only [Token.ofSpan, Token.ofLexeme, Lexeme.piece, Span.slice, Span.get?, here.same, cut,
    Option.map_some, Option.getD_some]

end Tokens

section Run

variable {machine : Recognizer σ α} {nesting : σ → Nesting} {outcome : Except Fault α}

/-- From here on the machine comes to the outcome, and the brackets that are open
can be counted. -/
def Nears (machine : Recognizer σ α) (nesting : σ → Nesting) (source : String)
    (outcome : Except Fault α) (cursor : Cursor) (state : σ × Gap) : Prop :=
  ∃ text, Faces source cursor text ∧ Tally (nesting state.1) cursor.pos ∧
    machine.run source.utf8ByteSize state.1 state.2 (tokensFrom cursor.pos (lexemes text)) = outcome

private theorem returns_take (tracks : machine.Tracks nesting) {next : Cursor} {state : σ × Gap}
    {token : Token} (ahead : Faces source next rest) (tally : Tally (nesting state.1) cursor.pos)
    (further : cursor.pos < next.pos) (shorter : next.size - next.pos < cursor.size - cursor.pos)
    (significant : token.isTrivia = false)
    (runs : machine.run source.utf8ByteSize state.1 state.2
      (token :: tokensFrom next.pos (lexemes rest)) = outcome) :
    Returns (take machine nesting next state token)
      (Rounds (Nears machine nesting source outcome) (· = outcome) cursor) := by
  rw [Recognizer.run, if_neg (by simp [significant])] at runs
  rw [take]
  cases sound : token.check with
  | error fault =>
    rw [sound] at runs
    exact .pure runs
  | ok same =>
    rw [sound] at runs
    obtain ⟨-, rfl⟩ := Token.check_eq_ok.mp sound
    apply (returns_count tally (Nat.lt_of_lt_of_le further ahead.pos_le) same).bind
    intro depths _
    change machine.step state.1 state.2 same >>= _ = outcome at runs
    cases stepped : machine.step state.1 state.2 same with
    | error fault =>
      rw [stepped] at runs
      exact .pure runs
    | ok result =>
      rw [stepped] at runs
      cases result with
      | done result => exact .pure runs
      | more following =>
        have tracked := tally.track further (tracks.more stepped)
        exact .pure ⟨⟨rest, ahead, tracked, runs⟩, shorter⟩

theorem returns_recognizeRound (tracks : machine.Tracks nesting) {state : σ × Gap}
    (nears : Nears machine nesting source outcome cursor state) :
    Returns (recognizeRound machine nesting cursor state)
      (Rounds (Nears machine nesting source outcome) (· = outcome) cursor) := by
  obtain ⟨text, here, tally, runs⟩ := nears
  cases text with
  | nil =>
    have size := here.pos_add
    rw [here.size_eq, Text.byteSize_nil, Nat.add_zero] at size
    apply (returns_endOfInput here).bind
    rintro ⟨_, next⟩ rfl
    rw [lexemes_nil, tokensFrom, Recognizer.run, ← size] at runs
    exact .pure runs
  | cons c after =>
    apply (returns_nextToken here (List.cons_ne_nil _ _)).bind
    rintro ⟨token, next⟩ ⟨lexeme, rest, first, same, ahead, pos⟩
    dsimp only at same ahead pos ⊢
    have positive : 0 < lexeme.byteSize :=
      Nat.pos_of_ne_zero fun empty => (Lexeme.first?_cuts first).1 (Text.byteSize_eq_zero.mp empty)
    have further : cursor.pos < next.pos := by omega
    have shorter : next.size - next.pos < cursor.size - cursor.pos := by
      apply here.less ahead
      rw [← (Lexeme.first?_cuts first).2, Text.byteSize_append]
      exact Nat.lt_add_of_pos_left positive
    have inside : token.tag ≠ .endOfInput := by
      rw [same]
      exact Lexeme.tag_ne_endOfInput first
    rw [lexemes_of_first? first, tokensFrom, ← same, ← pos] at runs
    rw [if_neg inside]
    cases trivia : token.isTrivia with
    | true =>
      rw [if_pos rfl]
      rw [Recognizer.run_trivia _ _ _ _ _ trivia] at runs
      exact .pure ⟨⟨rest, ahead, tally.mono (Nat.le_of_lt further), runs⟩, shorter⟩
    | false =>
      rw [if_neg (by simp)]
      exact returns_take tracks ahead tally further shorter trivia runs

/-- On bytes and in 32 bits, a machine comes to the same as on tokens. -/
theorem recognize_eq (tracks : machine.Tracks nesting) (source : String) :
    recognize machine nesting source = .ok (machine.recognize source) := by
  rw [recognize]
  split
  · next large =>
    rw [Recognizer.recognize, TokenStream.ofSource, if_pos large]
    rfl
  · next small =>
    have fits : source.utf8ByteSize ≤ maxOffset := Nat.le_of_not_lt small
    rw [Recognizer.recognize_of_fits machine fits]
    have tally : Tally (nesting machine.start) 0 := tracks.start ▸ .empty
    have nears : Nears machine nesting source
        (machine.run source.utf8ByteSize machine.start .closed (tokens source))
        (.ofSource source) (machine.start, .closed) :=
      ⟨source.toList, faces_ofSource fits, tally, rfl⟩
    exact (returns_loop (fun _ _ => returns_recognizeRound tracks) nears).eq_ok

end Run

end FragmentBounds.Checked

namespace FragmentBounds.Construct

open Checked

/-- The span of the fragment at the start of a source, found on bytes. -/
def extractChecked (construct : Construct) (source : String) :
    Except Panic (Except Fault Span) :=
  match construct with
  | .ifHeader => recognize (Header.recognizer .kwIf) Header.State.nesting source
  | .forHeader => recognize (Header.recognizer .kwFor) Header.State.nesting source
  | .switchHeader => recognize (Header.recognizer .kwSwitch) Header.State.nesting source
  | .label => recognize Label.recognizer Label.State.nesting source
  | .expression => recognize Expression.recognizer Expression.State.nesting source
  | .arguments => recognize Arguments.recognizer Arguments.State.nesting source

theorem extractChecked_eq (construct : Construct) (source : String) :
    construct.extractChecked source = .ok (construct.extract source) := by
  cases construct with
  | ifHeader => exact recognize_eq Header.tracks source
  | forHeader => exact recognize_eq Header.tracks source
  | switchHeader => exact recognize_eq Header.tracks source
  | label => exact recognize_eq Label.tracks source
  | expression => exact recognize_eq Expression.tracks source
  | arguments => exact recognize_eq Arguments.tracks source

end FragmentBounds.Construct

import FragmentBounds.Token.Basic

/-! Tokens taken from a source one by one. -/
namespace FragmentBounds

/-- The tokens still to come, and whether iteration has ended. -/
structure TokenStream where
  source : String
  pending : List Token
  finished : Bool
  deriving DecidableEq, Repr

namespace TokenStream

def ofSource (source : String) : Except Fault TokenStream :=
  if maxOffset < source.utf8ByteSize then .error (.sourceTooLarge source.utf8ByteSize)
  else .ok ⟨source, tokens source, false⟩

def size (stream : TokenStream) : Nat := stream.source.utf8ByteSize

def pos (stream : TokenStream) : Nat :=
  (stream.pending.head?.map (·.span.start)).getD stream.size

/-- The next token, trivia included. At the end it is the end of input,
however often it is asked for. -/
def next (stream : TokenStream) : Except Fault Token × TokenStream :=
  match stream.pending with
  | [] => (.ok (.endOfInput stream.size), stream)
  | token :: pending => (token.check, { stream with pending := pending })

/-- The first token that is not trivia, or the end of input, and what follows. -/
def significantIn (size : Nat) : List Token → Except Fault Token × List Token
  | [] => (.ok (.endOfInput size), [])
  | token :: pending =>
    if token.isTrivia then significantIn size pending else (token.check, pending)

def nextSignificant (stream : TokenStream) : Except Fault Token × TokenStream :=
  let (token, pending) := significantIn stream.size stream.pending
  (token, { stream with pending := pending })

def expectKeyword (stream : TokenStream) (keyword : Keyword) : Except Fault Token × TokenStream :=
  let (token, stream) := stream.nextSignificant
  let expected := do
    let token ← token
    if token.keyword? = some keyword then pure token
    else throw (token.unexpected (.keyword keyword))
  (expected, stream)

/-- One step of iteration, which ends before the end of input or after the
first malformed token, and then for good. -/
def iterate (stream : TokenStream) : Option (Except Fault Token) × TokenStream :=
  if stream.finished then (none, stream)
  else
    match stream.pending with
    | [] => (none, { stream with finished := true })
    | token :: pending =>
      let stream := { stream with pending := pending }
      match token.check with
      | .ok token => (some (.ok token), stream)
      | .error fault => (some (.error fault), { stream with finished := true })

/-- Tokens up to and including the first malformed one. -/
def checked : List Token → List (Except Fault Token)
  | [] => []
  | token :: pending =>
    match token.check with
    | .ok token => .ok token :: checked pending
    | .error fault => [.error fault]

/-- Everything that iteration will give. -/
def toList (stream : TokenStream) : List (Except Fault Token) :=
  if stream.finished then [] else checked stream.pending

theorem toList_iterate (stream : TokenStream) :
    stream.toList = match stream.iterate with
      | (none, _) => []
      | (some item, rest) => item :: rest.toList := by
  obtain ⟨source, pending, finished⟩ := stream
  cases finished with
  | true => rfl
  | false =>
    cases pending with
    | nil => rfl
    | cons token pending =>
      simp only [toList, iterate, checked, Bool.false_eq_true, if_false]
      cases token.check <;> rfl

end TokenStream

end FragmentBounds

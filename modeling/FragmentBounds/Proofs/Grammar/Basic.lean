import FragmentBounds.Proofs.Recognizer.Words

/-! The grammar of types, operands and operators that headers and expressions
share, as judgements on words. Inside brackets any balanced words may stand. -/
namespace FragmentBounds

/-- The parts of a type: a whole type, the signature of a function from its
keyword on, and what follows the parameters in it. -/
inductive TypePart where
  | whole
  | signature
  | results
  deriving DecidableEq, Repr

/-- Words that are a part of a type, in which functions may be left out. -/
inductive TypeWords (functions : Bool) : TypePart → List Spaced → Prop
  | name {word : Spaced} (named : word.token.isName) : TypeWords functions .whole [word]
  | qualified {package point word : Spaced} (prefixed : package.token.isName)
      (separates : point.token.tag = .dot) (named : word.token.isName) :
      TypeWords functions .whole [package, point, word]
  | pointer {star : Spaced} {target : List Spaced} (points : star.token.tag = .operator .star)
      (type : TypeWords functions .whole target) : TypeWords functions .whole (star :: target)
  | array {index element : List Spaced} (indexed : Enclosed .square index)
      (type : TypeWords functions .whole element) : TypeWords functions .whole (index ++ element)
  | map {word : Spaced} {key element : List Spaced} (maps : word.token.keyword? = some .kwMap)
      (keyed : Enclosed .square key) (type : TypeWords functions .whole element) :
      TypeWords functions .whole (word :: (key ++ element))
  | channel {word : Spaced} {element : List Spaced} (channels : word.token.keyword? = some .kwChan)
      (type : TypeWords functions .whole element) : TypeWords functions .whole (word :: element)
  | sending {word arrow : Spaced} {element : List Spaced}
      (channels : word.token.keyword? = some .kwChan) (sends : arrow.token.tag = .operator .arrow)
      (type : TypeWords functions .whole element) :
      TypeWords functions .whole (word :: arrow :: element)
  | receiving {arrow word : Spaced} {element : List Spaced}
      (receives : arrow.token.tag = .operator .arrow)
      (channels : word.token.keyword? = some .kwChan) (type : TypeWords functions .whole element) :
      TypeWords functions .whole (arrow :: word :: element)
  | members {word : Spaced} {keyword : Keyword} {list : List Spaced}
      (spelled : word.token.keyword? = some keyword) (body : keyword.hasTypeBody)
      (listed : Enclosed .brace list) : TypeWords functions .whole (word :: list)
  | function {words : List Spaced} (allowed : functions)
      (signature : TypeWords functions .signature words) : TypeWords functions .whole words
  | signature {word : Spaced} {parameters results : List Spaced}
      (spelled : word.token.keyword? = some .kwFunc) (takes : Enclosed .paren parameters)
      (gives : TypeWords functions .results results) :
      TypeWords functions .signature (word :: (parameters ++ results))
  | nothing : TypeWords functions .results []
  | result {words : List Spaced} (type : TypeWords functions .whole words) :
      TypeWords functions .results words
  | list {words : List Spaced} (listed : Enclosed .paren words) : TypeWords functions .results words

/-- Types whose literals are told from blocks. -/
inductive LiteralType (functions : Bool) : List Spaced → Prop
  | array {index element : List Spaced} (indexed : Enclosed .square index)
      (type : TypeWords functions .whole element) : LiteralType functions (index ++ element)
  | map {word : Spaced} {key element : List Spaced} (maps : word.token.keyword? = some .kwMap)
      (keyed : Enclosed .square key) (type : TypeWords functions .whole element) :
      LiteralType functions (word :: (key ++ element))
  | struct {word : Spaced} {fields : List Spaced} (spelled : word.token.keyword? = some .kwStruct)
      (listed : Enclosed .brace fields) : LiteralType functions (word :: fields)

/-- Operands other than composite literals and conversions. -/
inductive PlainOperand : List Spaced → Prop
  | name {word : Spaced} (named : word.token.isName) : PlainOperand [word]
  | literal {word : Spaced} (spelled : word.token.tag.isLiteral) : PlainOperand [word]
  | group {words : List Spaced} (grouped : Enclosed .paren words) : PlainOperand words
  | function {signature body : List Spaced} (signed : TypeWords true .signature signature)
      (runs : Enclosed .brace body) : PlainOperand (signature ++ body)

/-- What may follow an operand: a selector, a type assertion, a call or an index. -/
inductive PlainSuffix : List Spaced → Prop
  | selector {point word : Spaced} (selects : point.token.tag = .dot) (named : word.token.isName) :
      PlainSuffix [point, word]
  | assertion {point : Spaced} {type : List Spaced} (selects : point.token.tag = .dot)
      (asserted : Enclosed .paren type) : PlainSuffix (point :: type)
  | call {words : List Spaced} (called : Enclosed .paren words) : PlainSuffix words
  | index {words : List Spaced} (indexed : Enclosed .square words) : PlainSuffix words

/-- Operands with unary operators in front of them, joined by binary ones. -/
inductive Terms (operand : List Spaced → Prop) (joins : Spaced → Prop) : List Spaced → Prop
  | operand {words : List Spaced} (single : operand words) : Terms operand joins words
  | unary {word : Spaced} {words : List Spaced} (operates : word.token.tag.isUnaryOperator)
      (term : Terms operand joins words) : Terms operand joins (word :: words)
  | binary {word : Spaced} {left right : List Spaced} (first : Terms operand joins left)
      (operates : word.token.tag.isBinaryOperator) (joined : joins word)
      (second : Terms operand joins right) : Terms operand joins (left ++ word :: right)

section Leads

variable {σ α : Type} {machine : Recognizer σ α}

/-- What a machine does with the words that types are made of. It is somewhere
in front of each part of a type, and behind all of them it is where another
type could go on. -/
structure TakesTypes (machine : Recognizer σ α) (functions : Bool) (place : TypePart → σ → Prop) :
    Prop where
  name : ∀ {word : Spaced}, word.token.isName →
    machine.Leads (place .whole) [word] (place .whole)
  mark : ∀ {word : Spaced}, word.token.tag = .dot ∨ word.token.tag = .operator .star ∨
    word.token.tag = .operator .arrow → machine.Leads (place .whole) [word] (place .whole)
  container : ∀ {word : Spaced}, word.token.keyword? = some .kwMap ∨
    word.token.keyword? = some .kwChan → machine.Leads (place .whole) [word] (place .whole)
  index : ∀ {words : List Spaced}, Enclosed .square words →
    machine.Leads (place .whole) words (place .whole)
  members : ∀ {word : Spaced} {keyword : Keyword} {list : List Spaced},
    word.token.keyword? = some keyword → keyword.hasTypeBody → Enclosed .brace list →
      machine.Leads (place .whole) (word :: list) (place .whole)
  function : functions → ∀ state, place .whole state → place .signature state
  parameters : ∀ {word : Spaced} {words : List Spaced}, word.token.keyword? = some .kwFunc →
    Enclosed .paren words → machine.Leads (place .signature) (word :: words) (place .results)
  results : ∀ {words : List Spaced}, Enclosed .paren words →
    machine.Leads (place .results) words (place .whole)
  result : ∀ state, place .results state → place .whole state

theorem TypeWords.leads {functions : Bool} {place : TypePart → σ → Prop}
    (takes : TakesTypes machine functions place) {part : TypePart} {words : List Spaced}
    (type : TypeWords functions part words) : machine.Leads (place part) words (place .whole) := by
  induction type with
  | name named => exact takes.name named
  | qualified prefixed separates named =>
    exact (takes.name prefixed).cons ((takes.mark (.inl separates)).cons (takes.name named))
  | pointer points _ ih => exact (takes.mark (.inr (.inl points))).cons ih
  | array indexed _ ih => exact (takes.index indexed).append ih
  | map maps keyed _ ih =>
    exact (takes.container (.inl maps)).cons ((takes.index keyed).append ih)
  | channel channels _ ih => exact (takes.container (.inr channels)).cons ih
  | sending channels sends _ ih =>
    exact (takes.container (.inr channels)).cons ((takes.mark (.inr (.inr sends))).cons ih)
  | receiving receives channels _ ih =>
    exact (takes.mark (.inr (.inr receives))).cons ((takes.container (.inr channels)).cons ih)
  | members spelled body listed => exact takes.members spelled body listed
  | function allowed _ ih => exact ih.mono (takes.function allowed) fun _ => id
  | signature spelled listed _ ih => exact (takes.parameters spelled listed).append ih
  | nothing => exact .nil takes.result
  | result _ ih => exact ih.mono takes.result fun _ => id
  | list listed => exact takes.results listed

/-- A machine takes terms, if it takes operands and operators where they are due. -/
theorem Terms.leads {due after : σ → Prop} {operand : List Spaced → Prop}
    {joins : Spaced → Prop} {words : List Spaced} (terms : Terms operand joins words)
    (operands : ∀ words, operand words → machine.Leads due words after)
    (unary : ∀ word : Spaced, word.token.tag.isUnaryOperator → machine.Leads due [word] due)
    (binary : ∀ word : Spaced, word.token.tag.isBinaryOperator → joins word →
      machine.Leads after [word] due) : machine.Leads due words after := by
  induction terms with
  | operand single => exact operands _ single
  | unary operates _ ih => exact (unary _ operates).cons ih
  | binary _ operates joined _ left right =>
    exact left.append ((binary _ operates joined).cons right)

end Leads

end FragmentBounds

import FragmentBounds.Proofs.Fragment.ExpressionEmbedding
import FragmentBounds.Proofs.Grammar.Basic
import FragmentBounds.Proofs.Token.Places

/-! Expressions that follow the grammar of the host language are recognised
whole, as long as no line break comes where it would end a statement. Each pair
of brackets leads back to the phase that the word in front of it calls for. -/
namespace FragmentBounds

/-- Operands of an expression. A type whose literal or conversion they are holds
no function; behind a name or an index the braces of a literal touch it. -/
inductive ExpressionOperand : List Spaced → Prop
  | plain {words : List Spaced} (plain : PlainOperand words) : ExpressionOperand words
  | composite {type values : List Spaced} (typed : LiteralType false type)
      (filled : Enclosed .brace values) : ExpressionOperand (type ++ values)
  | conversion {type argument : List Spaced} (typed : LiteralType false type)
      (converts : Enclosed .paren argument) : ExpressionOperand (type ++ argument)
  | interface {word : Spaced} {methods argument : List Spaced}
      (spelled : word.token.keyword? = some .kwInterface) (listed : Enclosed .brace methods)
      (converts : Enclosed .paren argument) : ExpressionOperand (word :: (methods ++ argument))
  | suffixed {words suffix : List Spaced} (operand : ExpressionOperand words)
      (suffixed : PlainSuffix suffix) (joined : ∀ word ∈ suffix.head?, word.gap.broken = false) :
      ExpressionOperand (words ++ suffix)
  | touching {words values : List Spaced} {last : Spaced}
      (operand : ExpressionOperand (words ++ [last]))
      (ends : last.token.isName ∨ last.token.tag = .closing .square)
      (filled : Enclosed .brace values) (touches : ∀ word ∈ values.head?, word.gap = .closed) :
      ExpressionOperand (words ++ [last] ++ values)

/-- Operands joined by binary operators, none of which begins a line. -/
def ExpressionTerms : List Spaced → Prop :=
  Terms ExpressionOperand fun word => word.gap.broken = false

/-- An expression, which a spread mark may end. -/
inductive ExpressionWords : List Spaced → Prop
  | terms {words : List Spaced} (terms : ExpressionTerms words) : ExpressionWords words
  | spread {words : List Spaced} {mark : Spaced} (terms : ExpressionTerms words)
      (ellipsis : mark.token.tag = .ellipsis) (joined : mark.gap.broken = false) :
      ExpressionWords (words ++ [mark])

namespace Expression

open Recognizer

def At (phase : Phase) (state : State) : Prop := state.nesting.isTopLevel ∧ state.phase = phase

variable {phase next : Phase} {word : Spaced} {words : List Spaced}

theorem leads_plain (plain : word.token.tag.isBracket = false)
    (settles : ∀ previous, phase.settle previous word.gap word.token = .ok (.advance next)) :
    recognizer.Leads (At phase) [word] (At next) := by
  refine .single ?_
  rintro state ⟨topLevel, rfl⟩
  let after : State :=
    ⟨next, state.nesting, extendFragment state.fragment word.token, word.token.tag⟩
  refine ⟨after, ?_, topLevel, rfl⟩
  change step state word.gap word.token = _
  rw [step, if_pos topLevel, settles]
  exact map_eq_ok.mpr ⟨after, consume_eq.mpr ⟨state.nesting, state.nesting.track_plain plain, rfl⟩, rfl⟩

theorem leads_enclosed {P : State → Prop} {bracket : Bracket} (enclosed : Enclosed bracket words)
    (outside : ∀ state, P state → state.nesting.isTopLevel)
    (settles : ∀ state, P state → ∀ word ∈ words.head?, word.token.tag = .opening bracket →
      state.phase.settle state.previous word.gap word.token = .ok (.advance next)) :
    recognizer.Leads P words (At next) := by
  apply follows.leads_enclosed (P := fun state => state.phase = next) _ tracks enclosed outside
  · intro state holds word member tag
    let entered : State := ⟨next, state.nesting.push bracket word.token.span.start,
      extendFragment state.fragment word.token, word.token.tag⟩
    refine ⟨entered, ?_, rfl⟩
    change step state word.gap word.token = _
    rw [step, if_pos (outside state holds), settles state holds word member tag]
    exact map_eq_ok.mpr ⟨entered,
      consume_eq.mpr ⟨_, state.nesting.track_opening tag, rfl⟩, rfl⟩
  · exact fun state gap token after same topLevel _ _ => ⟨topLevel, same⟩
  · intro state gap token after nested same stepped
    exact ((step_more stepped).2.2.2.2 nested).trans same

theorem leads_group {bracket : Bracket} (enclosed : Enclosed bracket words)
    (settles : ∀ previous, ∀ word ∈ words.head?, word.token.tag = .opening bracket →
      phase.settle previous word.gap word.token = .ok (.advance next)) :
    recognizer.Leads (At phase) words (At next) := by
  refine leads_enclosed enclosed (fun _ => And.left) ?_
  rintro state ⟨-, rfl⟩
  exact settles state.previous

theorem leads_previous {P Q : State → Prop} (leads : recognizer.Leads P (words ++ [word]) Q) :
    recognizer.Leads P (words ++ [word]) fun state => Q state ∧ state.previous = word.token.tag := by
  intro state holds
  obtain ⟨last, takes, final⟩ := leads state holds
  obtain ⟨before, stepped⟩ := takes.last_step
  exact ⟨last, takes, final, (step_more stepped).2.2.1⟩

section Types

variable {inSignature : Bool}

theorem leads_type_plain (plain : word.token.tag.isBracket = false)
    (reacts : Phase.typeLiteralReaction inSignature word.token = .settled (.advance next)) :
    recognizer.Leads (At (.typeLiteral inSignature)) [word] (At next) :=
  leads_plain plain fun previous => by rw [Phase.settle_typeLiteral, reacts]

theorem leads_type_keyword {keyword : Keyword} (spelled : word.token.keyword? = some keyword)
    (starts : keyword.startsTypeLiteral) :
    recognizer.Leads (At (.typeLiteral inSignature)) [word]
      (At (if keyword.hasTypeBody then .members inSignature else .typeLiteral inSignature)) := by
  have tag := Token.tag_of_keyword? spelled
  refine leads_type_plain (by rw [tag]; rfl) ?_
  simp only [Phase.typeLiteralReaction, tag, spelled, starts, if_true]
  split <;> rfl

theorem leads_type_group {bracket : Bracket} (enclosed : Enclosed bracket words)
    (reacts : ∀ token : Token, token.tag = .opening bracket →
      Phase.typeLiteralReaction inSignature token = .settled (.advance next)) :
    recognizer.Leads (At (.typeLiteral inSignature)) words (At next) :=
  leads_group enclosed fun previous word _ tag => by
    rw [Phase.settle_typeLiteral, reacts word.token tag]

theorem leads_index (indexed : Enclosed .square words) :
    recognizer.Leads (At (.typeLiteral inSignature)) words (At (.typeLiteral inSignature)) :=
  leads_type_group indexed fun token tag => by simp [Phase.typeLiteralReaction, tag]

theorem leads_members (listed : Enclosed .brace words) :
    recognizer.Leads (At (.members inSignature)) words (At (.typeLiteral inSignature)) :=
  leads_group listed fun previous word _ tag => by
    rw [Phase.settle_members, Phase.membersReaction, if_pos tag]

theorem leads_parameters (listed : Enclosed .paren words) :
    recognizer.Leads (At (.typeLiteral true)) words (At (.typeLiteral true)) :=
  leads_type_group listed fun token tag => by simp [Phase.typeLiteralReaction, tag]

def AtPart (inSignature : Bool) (part : TypePart) (state : State) : Prop :=
  At (.typeLiteral inSignature) state ∧ (part ≠ .whole → inSignature)

theorem AtPart.whole {part : TypePart} {state : State} (here : AtPart inSignature part state) :
    AtPart inSignature .whole state := ⟨here.1, fun other => absurd rfl other⟩

theorem leads_within (leads : recognizer.Leads (At (.typeLiteral inSignature)) words
    (At (.typeLiteral inSignature))) :
    recognizer.Leads (AtPart inSignature .whole) words (AtPart inSignature .whole) :=
  leads.mono (fun _ => And.left) fun _ here => ⟨here, fun other => absurd rfl other⟩

theorem leads_signed {part : TypePart} (other : part ≠ .whole)
    (leads : recognizer.Leads (At (.typeLiteral true)) words (At (.typeLiteral true))) :
    recognizer.Leads (AtPart inSignature part) words (AtPart inSignature .results) := by
  rintro state ⟨here, signature⟩
  obtain rfl := signature other
  obtain ⟨last, takes, there⟩ := leads state here
  exact ⟨last, takes, there, fun _ => rfl⟩

theorem takesTypes {functions : Bool} (signatures : functions → inSignature) :
    TakesTypes recognizer functions (AtPart inSignature) where
  name named := by
    obtain ⟨tag, plain⟩ := Token.isName_iff.mp named
    refine leads_within (leads_type_plain (by rw [tag]; rfl) ?_)
    simp [Phase.typeLiteralReaction, tag, plain]
  mark tag := by
    refine leads_within (leads_type_plain ?_ ?_)
    · rcases tag with tag | tag | tag <;> rw [tag] <;> rfl
    · rcases tag with tag | tag | tag <;> simp [Phase.typeLiteralReaction, tag]
  container spelled := by
    rcases spelled with spelled | spelled <;>
      exact leads_within (leads_type_keyword spelled rfl)
  index indexed := leads_within (leads_index indexed)
  members spelled body listed := by
    have starts := Keyword.startsTypeLiteral_of_hasTypeBody body
    refine leads_within ((leads_type_keyword spelled starts).cons ?_)
    rw [if_pos body]
    exact leads_members listed
  function allowed _ here := ⟨here.1, fun _ => signatures allowed⟩
  parameters spelled listed :=
    leads_signed (by decide) ((leads_type_keyword spelled rfl).cons (leads_parameters listed))
  results listed :=
    (leads_signed (by decide) (leads_parameters listed)).mono (fun _ => id) fun _ => AtPart.whole
  result _ := AtPart.whole

theorem leads_type (type : TypeWords false .whole words) :
    recognizer.Leads (At (.typeLiteral inSignature)) words (At (.typeLiteral inSignature)) :=
  (type.leads (takesTypes (by simp))).mono (fun _ here => ⟨here, fun other => absurd rfl other⟩)
    fun _ => And.left

theorem leads_results (results : TypeWords true .results words) :
    recognizer.Leads (At (.typeLiteral true)) words (At (.typeLiteral true)) :=
  (results.leads (takesTypes fun _ => rfl)).mono (fun _ here => ⟨here, fun _ => rfl⟩)
    fun _ => And.left

end Types

theorem leads_operand_plain (plain : word.token.tag.isBracket = false)
    (reacts : Phase.operandReaction word.token = .ok (.advance next)) :
    recognizer.Leads (At .operand) [word] (At next) :=
  leads_plain plain fun previous => by rw [Phase.settle_operand, reacts]

theorem leads_operand_keyword {keyword : Keyword} (spelled : word.token.keyword? = some keyword)
    (starts : keyword.startsTypeLiteral) :
    recognizer.Leads (At .operand) [word] (At
      (if keyword.hasTypeBody then .members false else .typeLiteral (keyword == .kwFunc))) := by
  have tag := Token.tag_of_keyword? spelled
  refine leads_operand_plain (by rw [tag]; rfl) ?_
  simp only [Phase.operandReaction, tag, spelled, starts, if_true]
  split <;> rfl

theorem leads_literalType (type : LiteralType false words) :
    recognizer.Leads (At .operand) words (At (.typeLiteral false)) := by
  cases type with
  | array indexed type =>
    refine .append (leads_group indexed fun previous word _ tag => ?_) (leads_type type)
    rw [Phase.settle_operand]
    simp [Phase.operandReaction, tag]
  | map maps keyed type =>
    exact (leads_operand_keyword maps rfl).cons ((leads_index keyed).append (leads_type type))
  | struct spelled listed => exact (leads_operand_keyword spelled rfl).cons (leads_members listed)

theorem leads_values {inSignature : Bool} (filled : Enclosed .brace words) :
    recognizer.Leads (At (.typeLiteral inSignature)) words (At .afterOperand) :=
  leads_type_group filled fun token tag => by simp [Phase.typeLiteralReaction, tag]

theorem leads_argument (converts : Enclosed .paren words) :
    recognizer.Leads (At (.typeLiteral false)) words (At .afterOperand) :=
  leads_type_group converts fun token tag => by simp [Phase.typeLiteralReaction, tag]

theorem leads_plainOperand (operand : PlainOperand words) :
    recognizer.Leads (At .operand) words (At .afterOperand) := by
  cases operand with
  | name named =>
    obtain ⟨tag, plain⟩ := Token.isName_iff.mp named
    exact leads_operand_plain (by rw [tag]; rfl) (by simp [Phase.operandReaction, tag, plain])
  | @literal word spelled =>
    cases tag : word.token.tag with
    | literal kind => exact leads_operand_plain (by rw [tag]; rfl) (by simp [Phase.operandReaction, tag])
    | _ => simp [tag, Tag.isLiteral] at spelled
  | group grouped =>
    refine leads_group grouped fun previous word _ tag => ?_
    rw [Phase.settle_operand]
    simp [Phase.operandReaction, tag]
  | function signed runs =>
    cases signed with
    | signature spelled listed gives =>
      have rest := ((leads_parameters listed).append (leads_results gives)).append (leads_values runs)
      exact (leads_operand_keyword spelled rfl).cons rest

theorem leads_plainSuffix (suffix : PlainSuffix words)
    (joined : ∀ word ∈ words.head?, word.gap.broken = false) :
    recognizer.Leads (At .afterOperand) words (At .afterOperand) := by
  have point {word : Spaced} (tag : word.token.tag = .dot) (joined : word.gap.broken = false) :
      recognizer.Leads (At .afterOperand) [word] (At .selector) :=
    leads_plain (by rw [tag]; rfl) fun previous => by
      simp [Phase.settle_afterOperand, Phase.afterOperandReaction, joined, tag]
  cases suffix with
  | selector selects named =>
    refine (point selects (joined _ rfl)).cons (leads_plain ?_ fun previous => ?_)
    · rw [(Token.isName_iff.mp named).1]
      rfl
    · rw [Phase.settle_selector, Phase.selectorReaction, if_pos (.inl named)]
  | assertion selects asserted =>
    refine (point selects (joined _ rfl)).cons (leads_group asserted fun previous word _ tag => ?_)
    rw [Phase.settle_selector, Phase.selectorReaction, if_pos (.inr tag)]
  | call enclosed | index enclosed =>
    refine leads_group enclosed fun previous word first tag => ?_
    simp [Phase.settle_afterOperand, Phase.afterOperandReaction, joined word first, tag]

theorem leads_operand (operand : ExpressionOperand words) :
    recognizer.Leads (At .operand) words (At .afterOperand) := by
  induction operand with
  | plain plain => exact leads_plainOperand plain
  | composite typed filled => exact (leads_literalType typed).append (leads_values filled)
  | conversion typed converts => exact (leads_literalType typed).append (leads_argument converts)
  | interface spelled listed converts =>
    have rest := (leads_members listed).append (leads_argument converts)
    exact (leads_operand_keyword spelled rfl).cons rest
  | suffixed _ suffix joined ih => exact ih.append (leads_plainSuffix suffix joined)
  | touching _ ends filled touches ih =>
    refine (leads_previous ih).append (leads_enclosed filled (fun _ holds => holds.1.1) ?_)
    rintro state ⟨⟨-, phase⟩, previous⟩ word first tag
    have literal : takesLiteral state.previous := by
      rw [previous]
      rcases ends with named | tag
      · rw [(Token.isName_iff.mp named).1]
        rfl
      · rw [tag]
        rfl
    rw [phase, Phase.settle_afterOperand]
    simp [Phase.afterOperandReaction, touches word first, Gap.closed, tag, literal]

theorem leads_terms (terms : ExpressionTerms words) :
    recognizer.Leads (At .operand) words (At .afterOperand) := by
  refine terms.leads (fun _ => leads_operand) (fun word operates => ?_) fun word operates joined => ?_
  · obtain ⟨kind, tag⟩ := Tag.exists_operator (.inl operates)
    refine leads_operand_plain (by rw [tag]; rfl) ?_
    rw [tag] at operates
    simp [Phase.operandReaction, tag, operates]
  · obtain ⟨kind, tag⟩ := Tag.exists_operator (.inr operates)
    refine leads_plain (by rw [tag]; rfl) fun previous => ?_
    rw [tag] at operates
    simp [Phase.settle_afterOperand, Phase.afterOperandReaction, joined, tag, operates]

theorem step_of_spread {state : State} {gap : Gap} {mark : Token} {span : Span}
    (after : At .afterOperand state) (ellipsis : mark.tag = .ellipsis) (joined : gap.broken = false)
    (covers : extendFragment state.fragment mark = some span) :
    recognizer.step state gap mark = .ok (.done span) := by
  obtain ⟨topLevel, phase⟩ := after
  have settled : state.phase.settle state.previous gap mark = .ok .finish := by
    simp [phase, Phase.settle_afterOperand, Phase.afterOperandReaction, joined, ellipsis]
  let final : State := ⟨state.phase, state.nesting, some span, mark.tag⟩
  have consumed : state.consume mark = .ok final :=
    consume_eq.mpr ⟨_, state.nesting.track_plain (by rw [ellipsis]; rfl), by rw [covers]⟩
  change step state gap mark = _
  rw [step, if_pos topLevel, settled]
  simp only [bind, Except.bind, consumed]
  rfl

/-- Words of the grammar are a whole expression. -/
theorem whole_of_words {offset : Nat} {inside : List Lexeme}
    (expression : ExpressionWords (spacedFrom .closed (tokensFrom offset inside)))
    (trimmed : Trimmed inside) (sound : ∀ lexeme ∈ inside, lexeme.tag.isMalformed = false)
    (full : ∀ lexeme ∈ inside, lexeme.text ≠ []) :
    Whole offset inside ⟨offset, offset + Text.byteSize (inside.flatMap Lexeme.text)⟩ := by
  have begun : At .operand .start := ⟨rfl, rfl⟩
  have wellFormed : ∀ token ∈ tokensFrom offset inside, token.tag.isMalformed = false :=
    tag_of_mem_tokensFrom (P := fun tag => tag.isMalformed = false) sound
  have covers := hull_inside offset trimmed full
  generalize shape : spacedFrom .closed (tokensFrom offset inside) = words at expression
  cases expression with
  | terms terms =>
    obtain ⟨last, takes, topLevel, phase⟩ := leads_terms terms .start begun
    rw [← shape] at takes
    obtain ⟨lastGap, reads⟩ := takes.reads_all wellFormed
    exact .stopped reads topLevel (by rw [phase]; rfl) ((fragment_eq_hull reads).trans covers)
  | @spread words mark terms ellipsis joined =>
    obtain ⟨last, takes, after⟩ := leads_terms terms .start begun
    obtain ⟨body, final, rfl, significant⟩ := trimmed.exists_concat
    rw [tokensFrom_append, tokensFrom, tokensFrom] at shape wellFormed covers
    obtain ⟨same, reads⟩ := takes.reads_before shape significant wellFormed
    have nonempty : body ≠ [] := by
      rintro rfl
      obtain ⟨-, phase⟩ := after
      rw [reads.eq_of_trivia (by simp [tokensFrom])] at phase
      cases phase
    have fragment : last.fragment = hull none (tokensFrom offset body) := fragment_eq_hull reads
    have visible : (Token.ofLexeme (offset + Text.byteSize (body.flatMap Lexeme.text)) final).isTrivia =
        false := significant
    rw [hull_append, ← fragment, hull_cons_significant _ _ visible] at covers
    rw [same] at ellipsis
    exact .spread rfl nonempty ellipsis reads (step_of_spread after ellipsis joined covers)

end Expression

/-- A text of the grammar is recognised as the expression that it is, up to a
closing brace or the end of the source. -/
theorem extract_expression_words {text : String} (trimmed : Trimmed (lexemes text.toList))
    (sound : ∀ lexeme ∈ lexemes text.toList, lexeme.tag.isMalformed = false)
    (expression : ExpressionWords (spacedTokens text)) {before after rest : String}
    (blank : Blank before.toList) (spaces : Blank after.toList)
    (ends : rest = "" ∨ ∃ more, rest = "\x7d" ++ more)
    (fits : (before ++ text ++ after ++ rest).utf8ByteSize ≤ maxOffset) :
    Construct.expression.extract (before ++ text ++ after ++ rest) =
      .ok ⟨before.utf8ByteSize, before.utf8ByteSize + text.utf8ByteSize⟩ := by
  have whole := Expression.whole_of_words expression trimmed sound fun lexeme =>
    text_ne_nil_of_mem_lexemes
  have separated : Lexeme.Next (fun c => Lexeme.separates c) rest.toList ∧
      (∀ lexeme ∈ (lexemes rest.toList).head?, lexeme.tag.isTrivia = false) ∧
      ∀ place, Expression.Ends (tokensFrom place (lexemes rest.toList)) := by
    rcases ends with rfl | ⟨more, rfl⟩
    · rw [String.toList_empty, lexemes_nil]
      exact ⟨Lexeme.next_nil _, by simp, fun _ => .atEnd⟩
    · have shape : ("\x7d" ++ more).toList = '\x7d' :: more.toList := by simp
      have brace : lexemes ('\x7d' :: more.toList) =
          ⟨.closing .brace, ['\x7d']⟩ :: lexemes more.toList := lexemes_closer .brace more.toList
      rw [shape, brace, Lexeme.next_cons]
      exact ⟨rfl, by simp [Tag.isTrivia], fun _ => .brace rfl⟩
  obtain ⟨separated, visible, ended⟩ := separated
  have split := lexemes_embedded blank trimmed sound spaces separated visible
  rw [← String.toList_append, ← String.toList_append, ← String.toList_append] at split
  have found := whole.recognize_eq trimmed fits split (isTrivia_of_mem_lexemes_blank blank)
    fun place => by
      rw [tokensFrom_append]
      exact Expression.ends_append (isTrivia_tokensFrom (isTrivia_of_mem_lexemes_blank spaces))
        (ended _)
  rwa [flatMap_text_lexemes, flatMap_text_lexemes, Text.byteSize_toList, Text.byteSize_toList] at found

/-- A spread mark ends the expression at the operand behind the star. -/
theorem extract_expression_words_spread :
    Construct.expression.extract (" " ++ "[]T\x7b\x7d.f + *p..." ++ "\n" ++ "\x7d'") =
      .ok ⟨1, 16⟩ := by
  have words : spacedTokens "[]T\x7b\x7d.f + *p..." =
      [⟨.closed, .opening .square, ⟨0, 1⟩, "["⟩, ⟨.closed, .closing .square, ⟨1, 2⟩, "]"⟩] ++
        [⟨.closed, .identifier, ⟨2, 3⟩, "T"⟩] ++
        [⟨.closed, .opening .brace, ⟨3, 4⟩, "\x7b"⟩, ⟨.closed, .closing .brace, ⟨4, 5⟩, "\x7d"⟩] ++
        [⟨.closed, .dot, ⟨5, 6⟩, "."⟩, ⟨.closed, .identifier, ⟨6, 7⟩, "f"⟩] ++
        ⟨⟨true, false⟩, .operator .plus, ⟨8, 9⟩, "+"⟩ ::
          ⟨⟨true, false⟩, .operator .star, ⟨10, 11⟩, "*"⟩ ::
            [⟨.closed, .identifier, ⟨11, 12⟩, "p"⟩] ++
        [⟨.closed, .ellipsis, ⟨12, 15⟩, "..."⟩] := by decide +kernel
  have expression : ExpressionWords (spacedTokens "[]T\x7b\x7d.f + *p...") := by
    rw [words]
    refine .spread (.binary (.operand (.suffixed (.composite ?_ (.empty rfl rfl)) ?_ ?_)) rfl rfl
      (.unary rfl (.operand (.plain (.name (by decide)))))) rfl rfl
    · exact .array (.empty rfl rfl) (.name (by decide))
    · exact .selector rfl (by decide)
    · simp [Gap.closed]
  have trimmed : Trimmed (lexemes "[]T\x7b\x7d.f + *p...".toList) := by
    refine ⟨?_, ?_, ?_⟩ <;> decide +kernel
  have blank : Blank " ".toList := by decide +kernel
  have spaces : Blank "\n".toList := by decide +kernel
  have ends : "\x7d'" = "" ∨ ∃ more, "\x7d'" = "\x7d" ++ more := .inr ⟨"'", by decide⟩
  have found := extract_expression_words trimmed (by decide +kernel) expression blank spaces ends
    (by decide +kernel)
  exact found.trans (by decide +kernel)

end FragmentBounds

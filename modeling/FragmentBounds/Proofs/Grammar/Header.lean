import FragmentBounds.Proofs.Fragment.HeaderEmbedding
import FragmentBounds.Proofs.Grammar.Basic
import FragmentBounds.Proofs.Token.Places

/-! Headers that follow the grammar of the host language are recognised whole.
Between two operands no brace is awaited; a type awaits the braces of its
literal, or the body of a function, and no others. -/
namespace FragmentBounds

/-- Operands of a header. The literal of a bare type name is none of them. -/
inductive HeaderOperand : List Spaced → Prop
  | plain {words : List Spaced} (plain : PlainOperand words) : HeaderOperand words
  | composite {type values : List Spaced} (typed : LiteralType true type)
      (filled : Enclosed .brace values) : HeaderOperand (type ++ values)
  | suffixed {words suffix : List Spaced} (operand : HeaderOperand words)
      (suffixed : PlainSuffix suffix) : HeaderOperand (words ++ suffix)

def Tag.separatesExpressions : Tag → Bool
  | .semicolon | .comma | .operator .define | .operator .assign | .operator .compoundAssign => true
  | _ => false

/-- Expressions of a header, which may be counted up or down, and what joins them. -/
inductive HeaderWords : List Spaced → Prop
  | terms {words : List Spaced} (terms : Terms HeaderOperand (fun _ => True) words) :
      HeaderWords words
  | counted {words : List Spaced} {word : Spaced}
      (terms : Terms HeaderOperand (fun _ => True) words)
      (counts : word.token.tag = .operator .increment ∨ word.token.tag = .operator .decrement) :
      HeaderWords (words ++ [word])
  | joined {left right : List Spaced} {word : Spaced} (first : HeaderWords left)
      (separates : word.token.tag.separatesExpressions) (second : HeaderWords right) :
      HeaderWords (left ++ word :: right)
  | ranged {left right : List Spaced} {word range : Spaced} (first : HeaderWords left)
      (assigns : word.token.tag = .operator .define ∨ word.token.tag = .operator .assign)
      (ranges : range.token.keyword? = some .kwRange) (second : HeaderWords right) :
      HeaderWords (left ++ word :: range :: right)

namespace Header

open Recognizer

variable {keyword : Keyword}

/-- At top level of a clause, with something to be said of what the next brace
opens and of whether an operand has ended. -/
def Between (P : Option Body → Bool → Prop) (state : State) : Prop :=
  ∃ clause, state = .clause clause ∧ clause.nesting.isTopLevel ∧ P clause.body clause.afterOperand

variable {P Q : Option Body → Bool → Prop} {word : Spaced} {words : List Spaced}

theorem leads_plain (plain : word.token.tag.isBracket = false)
    (observes : ∀ body after, P body after →
      Q (observe body after word.token) (endsOperand word.token)) :
    (recognizer keyword).Leads (Between P) [word] (Between Q) := by
  refine .single ?_
  rintro _ ⟨clause, rfl, topLevel, holds⟩
  have other : word.token.tag ≠ .opening .brace := by
    intro tag
    rw [tag] at plain
    cases plain
  let after : Clause := ⟨clause.nesting, observe clause.body clause.afterOperand word.token,
    extendFragment clause.fragment word.token, endsOperand word.token⟩
  refine ⟨.clause after, ?_, after, rfl, topLevel, observes _ _ holds⟩
  change clause.step keyword word.token = _
  rw [Clause.step, if_pos topLevel, if_neg other]
  exact consume_eq.mpr ⟨clause.nesting, clause.nesting.track_plain plain, rfl⟩

theorem leads_identifier (tag : word.token.tag = .identifier)
    (observes : ∀ body after, P body after →
      Q (observe body after word.token) (endsOperand word.token)) :
    (recognizer keyword).Leads (Between P) [word] (Between Q) :=
  leads_plain (by rw [tag]; rfl) observes

theorem leads_enclosed {bracket : Bracket} (enclosed : Enclosed bracket words)
    (enters : ∀ clause : Clause, ∀ token : Token, clause.nesting.isTopLevel →
      token.tag = .opening bracket → P clause.body clause.afterOperand →
      ∃ body, clause.step keyword token = { clause with body := body }.consume token ∧ Q body true) :
    (recognizer keyword).Leads (Between P) words (Between Q) := by
  apply follows.leads_enclosed (P := fun state => ∃ clause, state = .clause clause ∧ Q clause.body true)
    _ tracks enclosed
  · rintro _ ⟨clause, rfl, topLevel, -⟩
    exact topLevel
  · rintro _ ⟨clause, rfl, topLevel, holds⟩ word - tag
    obtain ⟨body, stepped, entered⟩ := enters clause word.token topLevel tag holds
    exact ⟨_, stepped.trans (consume_eq.mpr ⟨_, clause.nesting.track_opening tag, rfl⟩), _, rfl, entered⟩
  · rintro state gap token _ ⟨clause, rfl, holds⟩ topLevel tag stepped
    cases state with
    | keyword =>
      obtain ⟨spelled, -⟩ := step_keyword stepped
      rw [Token.tag_of_keyword? spelled] at tag
      cases tag
    | clause before =>
      obtain ⟨_, same, -, -, operand, -⟩ := step_more stepped
      cases same
      refine ⟨clause, rfl, topLevel, ?_⟩
      rwa [operand, endsOperand, tag]
  · rintro _ gap token next nested ⟨clause, rfl, holds⟩ stepped
    obtain ⟨after, rfl, -, -, -, kept⟩ := step_more stepped
    exact ⟨after, rfl, by rwa [kept nested]⟩

theorem leads_group {bracket : Bracket} (enclosed : Enclosed bracket words)
    (other : bracket ≠ .brace)
    (observes : ∀ body after token, token.tag = .opening bracket → P body after →
      Q (observe body after token) true) :
    (recognizer keyword).Leads (Between P) words (Between Q) := by
  refine leads_enclosed enclosed fun clause token topLevel tag holds => ⟨_, ?_, observes _ _ _ tag holds⟩
  rw [Clause.step, if_pos topLevel, if_neg (by simp [tag, other])]

theorem leads_body (enclosed : Enclosed .brace words)
    (awaits : ∀ body after, P body after → ∃ kind, body = some kind ∧ Q kind.next? true) :
    (recognizer keyword).Leads (Between P) words (Between Q) := by
  refine leads_enclosed enclosed fun clause token topLevel tag holds => ?_
  obtain ⟨kind, body, next⟩ := awaits _ _ holds
  refine ⟨kind.next?, ?_, next⟩
  rw [Clause.step, if_pos topLevel, if_pos tag, body]

theorem observe_name (body : Option Body) (after : Bool) {token : Token} (named : token.isName) :
    observe body after token = body := by
  obtain ⟨tag, plain⟩ := Token.isName_iff.mp named
  simp only [observe, tag, plain]

theorem observe_keyword (body : Option Body) (after : Bool) {token : Token} {word : Keyword}
    (spelled : token.keyword? = some word) :
    observe body after token =
      if word = .kwFunc then some .function
      else if word.hasTypeBody then some (.members (body == some .function))
      else if word.startsTypeLiteral then
        some (if body = some .function then .function else .literal)
      else none := by
  simp only [observe, Token.tag_of_keyword? spelled, spelled]
  cases word <;> rfl

/-- What the next brace opens where a part of a type begins: in a type it is the
literal of it or the body of a function, and after parameters it is the body. -/
def Awaits : TypePart → Option Body → Bool → Prop
  | .whole, body, _ => body = some .function ∨ body = some .literal
  | .signature, _, _ => True
  | .results, body, _ => body = some .function

theorem takesTypes (functions : Bool) :
    TakesTypes (recognizer keyword) functions fun part => Between (Awaits part) where
  name named := leads_identifier (Token.isName_iff.mp named).1 fun body after holds => by
    rwa [observe_name body after named]
  mark tag := by
    refine leads_plain (by rcases tag with tag | tag | tag <;> rw [tag] <;> rfl) ?_
    intro body after holds
    rcases tag with tag | tag | tag <;> simpa [observe, tag, Awaits] using holds
  container spelled := by
    refine leads_identifier (spelled.elim Token.tag_of_keyword? Token.tag_of_keyword?) ?_
    rintro body after (rfl | rfl) <;> rcases spelled with spelled | spelled <;>
      simp [observe_keyword _ _ spelled, Keyword.hasTypeBody, Keyword.startsTypeLiteral, Awaits]
  index indexed := leads_group indexed (by decide) fun body after token tag holds => by
    rcases holds with rfl | rfl <;> simp [observe, tag, Awaits]
  members {word _ _} spelled body listed := by
    have opened : (recognizer keyword).Leads (Between (Awaits .whole)) [word]
        (Between fun body _ => ∃ inSignature, body = some (.members inSignature)) :=
      leads_identifier (Token.tag_of_keyword? spelled) fun before after _ => by
        rw [observe_keyword _ _ spelled, if_neg (by rintro rfl; cases body), if_pos body]
        exact ⟨_, rfl⟩
    refine opened.cons (leads_body listed ?_)
    rintro _ after ⟨inSignature, rfl⟩
    refine ⟨_, rfl, ?_⟩
    cases inSignature
    · exact .inr rfl
    · exact .inl rfl
  function _ := by
    rintro _ ⟨clause, rfl, topLevel, -⟩
    exact ⟨clause, rfl, topLevel, trivial⟩
  parameters {word _} spelled listed := by
    have opened : (recognizer keyword).Leads (Between (Awaits .signature)) [word]
        (Between (Awaits .results)) :=
      leads_identifier (Token.tag_of_keyword? spelled) fun body after _ => by
        rw [observe_keyword _ _ spelled, if_pos rfl]
        rfl
    refine opened.cons (leads_group listed (by decide) ?_)
    rintro _ after token tag rfl
    simp [observe, tag, Awaits]
  results listed := leads_group listed (by decide) fun body after token tag holds => by
    cases holds
    simp [observe, tag, Awaits]
  result := by
    rintro _ ⟨clause, rfl, topLevel, body⟩
    exact ⟨clause, rfl, topLevel, .inl body⟩

def Due : State → Prop := Between fun body after => body = none ∧ after = false

def Ended : State → Prop := Between fun body after => body = none ∧ after = true

def Clear : State → Prop := Between fun body _ => body = none

theorem Due.clear {state : State} (due : Due state) : Clear state := by
  obtain ⟨clause, rfl, topLevel, body, -⟩ := due
  exact ⟨clause, rfl, topLevel, body⟩

theorem Ended.clear {state : State} (ended : Ended state) : Clear state := by
  obtain ⟨clause, rfl, topLevel, body, -⟩ := ended
  exact ⟨clause, rfl, topLevel, body⟩

theorem leads_literalType {functions : Bool} (type : LiteralType functions words) :
    (recognizer keyword).Leads Due words (Between (Awaits .whole)) := by
  cases type with
  | array indexed type =>
    refine (leads_group indexed (by decide) ?_).append (type.leads (takesTypes _))
    rintro _ _ token tag ⟨rfl, rfl⟩
    simp [observe, tag, Awaits]
  | map maps keyed type =>
    refine .cons (leads_identifier (Token.tag_of_keyword? maps) ?_)
      (((takesTypes functions).index keyed).append (type.leads (takesTypes _)))
    rintro _ _ ⟨rfl, rfl⟩
    simp [observe_keyword _ _ maps, Keyword.hasTypeBody, Keyword.startsTypeLiteral, Awaits]
  | @struct word _ spelled listed =>
    have opened : (recognizer keyword).Leads Due [word]
        (Between fun body _ => body = some (.members false)) := by
      refine leads_identifier (Token.tag_of_keyword? spelled) ?_
      rintro _ after ⟨rfl, -⟩
      simp [observe_keyword _ _ spelled, Keyword.hasTypeBody]
    refine opened.cons (leads_body listed ?_)
    rintro _ after rfl
    exact ⟨_, rfl, .inr rfl⟩

theorem leads_values (enclosed : Enclosed .brace words) :
    (recognizer keyword).Leads (Between (Awaits .whole)) words Ended := by
  refine leads_body enclosed ?_
  rintro _ after (rfl | rfl) <;> exact ⟨_, rfl, rfl, rfl⟩

theorem leads_paren (enclosed : Enclosed .paren words) :
    (recognizer keyword).Leads Clear words Ended :=
  leads_group enclosed (by decide) fun body after token tag holds => by
    cases holds
    simp [observe, tag]

theorem leads_name (named : word.token.isName) : (recognizer keyword).Leads Clear [word] Ended := by
  refine leads_identifier (Token.isName_iff.mp named).1 fun body after holds => ?_
  rw [observe_name body after named]
  exact ⟨holds, by simp [endsOperand, named]⟩

theorem leads_plainOperand (operand : PlainOperand words) :
    (recognizer keyword).Leads Due words Ended := by
  cases operand with
  | name named => exact (leads_name named).mono (fun _ => Due.clear) fun _ => id
  | @literal word spelled =>
    cases tag : word.token.tag with
    | literal kind =>
      refine leads_plain (by rw [tag]; rfl) fun body after _ => ?_
      simp [observe, endsOperand, tag, Tag.isLiteral]
    | _ => simp [tag, Tag.isLiteral] at spelled
  | group grouped => exact (leads_paren grouped).mono (fun _ => Due.clear) fun _ => id
  | function signed runs =>
    refine .append ((signed.leads (takesTypes _)).mono ?_ fun _ => id) (leads_values runs)
    rintro _ ⟨clause, rfl, topLevel, -⟩
    exact ⟨clause, rfl, topLevel, trivial⟩

theorem leads_plainSuffix (suffix : PlainSuffix words) :
    (recognizer keyword).Leads Ended words Ended := by
  have point {word : Spaced} (tag : word.token.tag = .dot) :
      (recognizer keyword).Leads Ended [word] Clear :=
    leads_plain (by rw [tag]; rfl) fun body after holds => by simpa [observe, tag] using holds.1
  cases suffix with
  | selector selects named => exact (point selects).cons (leads_name named)
  | assertion selects asserted => exact (point selects).cons (leads_paren asserted)
  | call called => exact (leads_paren called).mono (fun _ => Ended.clear) fun _ => id
  | index indexed =>
    refine leads_group indexed (by decide) ?_
    rintro _ _ token tag ⟨rfl, rfl⟩
    simp [observe, tag]

theorem leads_operand (operand : HeaderOperand words) :
    (recognizer keyword).Leads Due words Ended := by
  induction operand with
  | plain plain => exact leads_plainOperand plain
  | composite typed filled => exact (leads_literalType typed).append (leads_values filled)
  | suffixed _ suffix ih => exact ih.append (leads_plainSuffix suffix)

theorem leads_joint (joint : word.token.tag = .comma ∨ word.token.tag = .semicolon ∨
    ∃ kind, word.token.tag = .operator kind) : (recognizer keyword).Leads Clear [word] Due := by
  rcases joint with tag | tag | ⟨kind, tag⟩
  · refine leads_plain (by rw [tag]; rfl) fun body after _ => ?_
    simp [observe, endsOperand, tag, Tag.isLiteral, Tag.closes?, Token.isName]
  · refine leads_plain (by rw [tag]; rfl) fun body after _ => ?_
    simp [observe, endsOperand, tag, Tag.isLiteral, Tag.closes?, Token.isName]
  · refine leads_plain (by rw [tag]; rfl) fun body after holds => ⟨?_, ?_⟩
    · cases holds
      cases kind <;> simp [observe, tag]
    · simp [endsOperand, tag, Tag.isLiteral, Tag.closes?, Token.isName]

theorem leads_terms (terms : Terms HeaderOperand (fun _ => True) words) :
    (recognizer keyword).Leads Due words Ended := by
  refine terms.leads (fun _ => leads_operand) ?_ ?_
  · intro word operates
    refine (leads_joint (.inr (.inr ?_))).mono (fun _ => Due.clear) fun _ => id
    exact Tag.exists_operator (.inl operates)
  · intro word operates _
    refine (leads_joint (.inr (.inr ?_))).mono (fun _ => Ended.clear) fun _ => id
    exact Tag.exists_operator (.inr operates)

theorem leads_words (header : HeaderWords words) : (recognizer keyword).Leads Due words Clear := by
  induction header with
  | terms terms => exact (leads_terms terms).mono (fun _ => id) fun _ => Ended.clear
  | counted terms counts =>
    refine (leads_terms terms).append ((leads_joint (.inr (.inr ?_))).mono (fun _ => Ended.clear)
      fun _ => Due.clear)
    exact counts.elim (fun tag => ⟨_, tag⟩) fun tag => ⟨_, tag⟩
  | @joined left right word _ separates _ first second =>
    refine first.append (.cons (leads_joint ?_) second)
    cases tag : word.token.tag with
    | comma => exact .inl rfl
    | semicolon => exact .inr (.inl rfl)
    | operator kind => exact .inr (.inr ⟨kind, rfl⟩)
    | _ => simp [tag, Tag.separatesExpressions] at separates
  | @ranged left right word range _ assigns ranges _ first second =>
    have assigned : (recognizer keyword).Leads Clear [word] Clear := by
      refine (leads_joint (.inr (.inr ?_))).mono (fun _ => id) fun _ => Due.clear
      exact assigns.elim (fun tag => ⟨_, tag⟩) fun tag => ⟨_, tag⟩
    have begun : (recognizer keyword).Leads Clear [range] Due := by
      refine leads_identifier (Token.tag_of_keyword? ranges) fun body after _ => ⟨?_, ?_⟩
      · simp [observe_keyword _ _ ranges, Keyword.hasTypeBody, Keyword.startsTypeLiteral]
      · simp [endsOperand, Token.tag_of_keyword? ranges, Tag.isLiteral, Tag.closes?, Token.isName,
          ranges]
    exact first.append (assigned.cons (begun.cons second))

/-- Words of the grammar are a whole header. -/
theorem whole_of_words {offset : Nat} {inside : List Lexeme}
    (header : HeaderWords (spacedFrom .closed (tokensFrom offset inside)))
    (sound : ∀ lexeme ∈ inside, lexeme.tag.isMalformed = false) : Whole keyword offset inside := by
  obtain ⟨_, takes, last, rfl, topLevel, body⟩ :=
    leads_words header (.clause .start) ⟨.start, rfl, rfl, rfl, rfl⟩
  obtain ⟨lastGap, reads⟩ :=
    takes.reads_all (tag_of_mem_tokensFrom (P := fun tag => tag.isMalformed = false) sound)
  exact ⟨.closed, last, lastGap, reads, topLevel, body⟩

end Header

/-- A text of the grammar is recognised as the header that it is, behind any
keyword of the construct and in front of any brace. -/
theorem extract_header_words {construct : Construct} {keyword : Keyword}
    (introduces : construct.headerKeyword? = some keyword) {text : String}
    (trimmed : Trimmed (lexemes text.toList))
    (sound : ∀ lexeme ∈ lexemes text.toList, lexeme.tag.isMalformed = false)
    (header : HeaderWords (spacedTokens text)) {before after : String} (blank : Blank before.toList)
    (nonempty : before ≠ "") (spaces : Blank after.toList) (rest : String)
    (fits : (keyword.spelling ++ before ++ text ++ after ++ "\x7b" ++ rest).utf8ByteSize ≤ maxOffset) :
    construct.extract (keyword.spelling ++ before ++ text ++ after ++ "\x7b" ++ rest) =
      .ok ⟨(keyword.spelling ++ before).utf8ByteSize,
        (keyword.spelling ++ before ++ text).utf8ByteSize⟩ := by
  have whole : Header.Whole keyword 0 (lexemes text.toList) := Header.whole_of_words header sound
  have filled : before.toList ≠ [] := fun none => nonempty (String.toList_eq_nil_iff.mp none)
  have split := lexemes_header keyword rest.toList blank filled trimmed sound spaces
  have shape : (keyword.spelling ++ before ++ text ++ after ++ "\x7b" ++ rest).toList =
      keyword.spelling.toList ++
        (before.toList ++ (text.toList ++ (after.toList ++ '\x7b' :: rest.toList))) := by
    simp
  rw [← shape] at split
  have covered := hull_inside (Text.byteSize keyword.spelling.toList + Text.byteSize before.toList)
    trimmed fun lexeme => text_ne_nil_of_mem_lexemes
  rw [flatMap_text_lexemes] at covered
  have begins : Text.byteSize keyword.spelling.toList + Text.byteSize before.toList =
      Text.byteSize keyword.spelling.toList +
        Text.byteSize ((lexemes before.toList).flatMap Lexeme.text) := by
    rw [flatMap_text_lexemes]
  have found := whole.recognize_eq fits split rfl (isTrivia_of_mem_lexemes_blank blank)
    (isTrivia_of_mem_lexemes_blank spaces) rfl begins fun none =>
      absurd (none.symm.trans covered) (by simp)
  rw [construct.extract_header introduces, found, covered]
  simp [String.utf8ByteSize_append, Text.byteSize_toList]

/-- The braces of the fields and those of the values are passed over. -/
theorem extract_header_words_struct :
    Construct.forHeader.extract (Keyword.kwFor.spelling ++ " " ++
      "i := range []struct\x7b\x7d\x7b\x7d" ++ "\n" ++ "\x7b" ++ "'") = .ok ⟨4, 27⟩ := by
  have words : spacedTokens "i := range []struct\x7b\x7d\x7b\x7d" =
      [⟨.closed, .identifier, ⟨0, 1⟩, "i"⟩] ++
        ⟨⟨true, false⟩, .operator .define, ⟨2, 4⟩, ":="⟩ ::
          ⟨⟨true, false⟩, .identifier, ⟨5, 10⟩, "range"⟩ ::
            ([⟨⟨true, false⟩, .opening .square, ⟨11, 12⟩, "["⟩,
                ⟨.closed, .closing .square, ⟨12, 13⟩, "]"⟩] ++
              [⟨.closed, .identifier, ⟨13, 19⟩, "struct"⟩,
                ⟨.closed, .opening .brace, ⟨19, 20⟩, "\x7b"⟩,
                ⟨.closed, .closing .brace, ⟨20, 21⟩, "\x7d"⟩] ++
              [⟨.closed, .opening .brace, ⟨21, 22⟩, "\x7b"⟩,
                ⟨.closed, .closing .brace, ⟨22, 23⟩, "\x7d"⟩]) := by decide +kernel
  have header : HeaderWords (spacedTokens "i := range []struct\x7b\x7d\x7b\x7d") := by
    rw [words]
    have first : HeaderWords [⟨.closed, .identifier, ⟨0, 1⟩, "i"⟩] :=
      .terms (.operand (.plain (.name (by decide))))
    refine .ranged first (.inl rfl) (by decide) (.terms (.operand (.composite ?_ (.empty rfl rfl))))
    exact .array (.empty rfl rfl) (@TypeWords.members true _ .kwStruct _ (by decide) rfl (.empty rfl rfl))
  have introduces : Construct.forHeader.headerKeyword? = some .kwFor := rfl
  have trimmed : Trimmed (lexemes "i := range []struct\x7b\x7d\x7b\x7d".toList) := by
    refine ⟨?_, ?_, ?_⟩ <;> decide +kernel
  have blank : Blank " ".toList := by decide +kernel
  have spaces : Blank "\n".toList := by decide +kernel
  have found := extract_header_words introduces trimmed (by decide +kernel) header blank (by decide)
    spaces "'" (by decide +kernel)
  exact found.trans (by decide +kernel)

end FragmentBounds

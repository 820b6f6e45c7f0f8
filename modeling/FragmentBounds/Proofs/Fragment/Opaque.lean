import FragmentBounds.Proofs.Fragment.Groups
import FragmentBounds.Proofs.Lexeme.Trimmed

/-! What a bracket pair encloses may be replaced by anything balanced. -/
namespace FragmentBounds

open Recognizer

/-- Offsets into a source of which a group starts at `opener`, before and after
the content of the group is replaced by a larger or smaller one. -/
def Displaced (opener size other : Nat) (x y : Nat) : Prop :=
  x ≤ opener ∧ y = x ∨ opener < x ∧ y + size = x + other

private def outside (opener size other : Nat) : Alignment where
  starts x y := x ≤ opener ∧ y = x ∨
    opener + 1 + size ≤ x ∧ opener + 1 + other ≤ y ∧ y + size = x + other
  stops x y := x ≤ opener ∧ y = x ∨
    opener + 1 + size ≤ x ∧ opener + 1 + other ≤ y ∧ y + size = x + other
  starts_min := by omega
  stops_max := by omega

private theorem displaced_of_outside {opener size other x y : Nat}
    (aligned : (outside opener size other).starts x y) : Displaced opener size other x y := by
  rcases aligned with same | ⟨behind, -, moved⟩
  · exact .inl same
  · exact .inr ⟨by omega, moved⟩

private theorem upTo_within (opener size other : Nat) :
    (Alignment.upTo opener).Within (outside opener size other) :=
  ⟨fun _ _ same => .inl same, fun _ _ same => .inl same⟩

theorem byteSize_opener (bracket : Bracket) : Text.byteSize bracket.opener.toList = 1 := by
  cases bracket <;> decide

theorem byteSize_closer (bracket : Bracket) : Text.byteSize bracket.closer.toList = 1 := by
  cases bracket <;> decide

private theorem group_tokensFrom (bracket : Bracket) (offset : Nat) {content : List Char}
    (closed : Sealed content) (balanced : Balanced ((lexemes content).map Lexeme.tag)) :
    Group (.ofLexeme offset ⟨.opening bracket, bracket.opener.toList⟩)
      (tokensFrom (offset + 1) (lexemes content) ++
        [.ofLexeme (offset + 1 + Text.byteSize content)
          ⟨.closing bracket, bracket.closer.toList⟩])
      (offset + 1 + Text.byteSize content + 1) := by
  let opener : Lexeme := ⟨.opening bracket, bracket.opener.toList⟩
  let closer : Lexeme := ⟨.closing bracket, bracket.closer.toList⟩
  have opens : opener.byteSize = 1 := byteSize_opener bracket
  have closes : closer.byteSize = 1 := byteSize_closer bracket
  have inside : Laid (offset + 1) (tokensFrom (offset + 1) (lexemes content))
      (offset + 1 + Text.byteSize content) := by
    have laid := laid_tokensFrom (offset + 1) fun lexeme (member : lexeme ∈ lexemes content) =>
      text_ne_nil_of_mem_lexemes member
    rwa [flatMap_text_lexemes] at laid
  have last : Laid (offset + 1 + Text.byteSize content)
      [.ofLexeme (offset + 1 + Text.byteSize content) closer]
      (offset + 1 + Text.byteSize content + closer.byteSize) :=
    .cons rfl (by simp only [Token.ofLexeme]; omega) (.nil _)
  rw [closes] at last
  refine .mk bracket rfl rfl ?_ ?_ (.cons rfl ?_ ?_)
  · rw [map_tag_tokensFrom]
    exact balanced
  · intro token member
    have tag : token.tag ∈ (tokensFrom (offset + 1) (lexemes content)).map Token.tag :=
      List.mem_map_of_mem member
    rw [map_tag_tokensFrom] at tag
    obtain ⟨lexeme, member, same⟩ := List.mem_map.mp tag
    rw [← same]
    exact closed.sound lexeme member
  · change offset < offset + opener.byteSize
    omega
  · change Laid (offset + opener.byteSize) _ _
    rw [opens]
    exact laid_append.mpr ⟨_, inside, last⟩

private theorem tokens_group (bracket : Bracket) {before content after : String}
    (front : Sealed before.toList) (closed : Sealed content.toList) :
    tokens (before ++ bracket.opener ++ content ++ bracket.closer ++ after) =
      tokensFrom 0 (lexemes before.toList) ++
        .ofLexeme before.utf8ByteSize ⟨.opening bracket, bracket.opener.toList⟩ ::
          ((tokensFrom (before.utf8ByteSize + 1) (lexemes content.toList) ++
            [.ofLexeme (before.utf8ByteSize + 1 + content.utf8ByteSize)
              ⟨.closing bracket, bracket.closer.toList⟩]) ++
            tokensFrom (before.utf8ByteSize + 1 + content.utf8ByteSize + 1)
              (lexemes after.toList)) := by
  have cut : (before ++ bracket.opener ++ content ++ bracket.closer ++ after).toList =
      before.toList ++ (bracket.opener.toList ++ (content.toList ++ (bracket.closer.toList ++ after.toList))) := by
    simp
  have opens : Lexeme.byteSize ⟨.opening bracket, bracket.opener.toList⟩ = 1 := byteSize_opener bracket
  have closes : Lexeme.byteSize ⟨.closing bracket, bracket.closer.toList⟩ = 1 := byteSize_closer bracket
  rw [tokens, cut, lexemes_group bracket front closed after.toList, tokensFrom_append, tokensFrom,
    tokensFrom_append, tokensFrom, flatMap_text_lexemes, flatMap_text_lexemes, opens, closes,
    Text.byteSize_toList, Text.byteSize_toList, Nat.zero_add]
  simp

variable {σ : Type}

private theorem recognize_group {machine : Recognizer σ Span} {S : Alignment → σ → σ → Prop}
    (respects : machine.Respects S Span.Corresponds) (regroups : machine.Regroups S)
    (start : ∀ alignment, S alignment machine.start machine.start) (bracket : Bracket)
    {before content other : String} (after : String) (front : Sealed before.toList)
    (closed : Sealed content.toList) (balanced : Balanced ((lexemes content.toList).map Lexeme.tag))
    (sealed : Sealed other.toList) (even : Balanced ((lexemes other.toList).map Lexeme.tag))
    (fits : (before ++ bracket.opener ++ content ++ bracket.closer ++ after).utf8ByteSize ≤ maxOffset)
    (also : (before ++ bracket.opener ++ other ++ bracket.closer ++ after).utf8ByteSize ≤ maxOffset) :
    Agree (outside before.utf8ByteSize content.utf8ByteSize other.utf8ByteSize).starts
      (Span.Corresponds (outside before.utf8ByteSize content.utf8ByteSize other.utf8ByteSize))
      (machine.recognize (before ++ bracket.opener ++ content ++ bracket.closer ++ after))
      (machine.recognize (before ++ bracket.opener ++ other ++ bracket.closer ++ after)) := by
  rw [recognize_of_fits machine fits, recognize_of_fits machine also, tokens_group bracket front closed,
    tokens_group bracket front sealed]
  have laid : Laid 0 (tokensFrom 0 (lexemes before.toList)) before.utf8ByteSize := laid_tokens before
  have group := group_tokensFrom bracket before.utf8ByteSize closed balanced
  have changed := group_tokensFrom bracket before.utf8ByteSize sealed even
  rw [Text.byteSize_toList] at group changed
  have moved (d : Nat) :
      (outside before.utf8ByteSize content.utf8ByteSize other.utf8ByteSize).starts
        (before.utf8ByteSize + 1 + content.utf8ByteSize + 1 + d)
        (before.utf8ByteSize + 1 + other.utf8ByteSize + 1 + d) :=
    .inr ⟨by omega, by omega, by omega⟩
  have size (content : String) :
      (before ++ bracket.opener ++ content ++ bracket.closer ++ after).utf8ByteSize =
        before.utf8ByteSize + 1 + content.utf8ByteSize + 1 + after.utf8ByteSize := by
    have opens := byteSize_opener bracket
    have closes := byteSize_closer bracket
    rw [Text.byteSize_toList] at opens closes
    simp only [String.utf8ByteSize_append, opens, closes]
  apply respects.run_group regroups laid (upTo_within _ _ _) group changed
  · exact aligned_tokensFrom _ (fun d _ => moved d) fun d _ => moved d
  · exact moved 0
  · rw [size content, size other]
    exact moved after.utf8ByteSize
  · exact start _

/-- What stands in a bracket pair never moves the bounds of a fragment. With
another content, of which the brackets are balanced as well, every construct
has the same fragment or fails with the same fault, but for the offsets behind
the content, which move with it. -/
theorem extract_group_opaque (construct : Construct) (bracket : Bracket)
    (before content other after : String) (front : Sealed before.toList)
    (closed : Sealed content.toList) (balanced : Balanced ((lexemes content.toList).map Lexeme.tag))
    (sealed : Sealed other.toList) (even : Balanced ((lexemes other.toList).map Lexeme.tag))
    (fits : (before ++ bracket.opener ++ content ++ bracket.closer ++ after).utf8ByteSize ≤ maxOffset)
    (also : (before ++ bracket.opener ++ other ++ bracket.closer ++ after).utf8ByteSize ≤ maxOffset) :
    Agree (Displaced before.utf8ByteSize content.utf8ByteSize other.utf8ByteSize)
      (fun left right =>
        Displaced before.utf8ByteSize content.utf8ByteSize other.utf8ByteSize left.start right.start ∧
        Displaced before.utf8ByteSize content.utf8ByteSize other.utf8ByteSize left.stop right.stop)
      (construct.extract (before ++ bracket.opener ++ content ++ bracket.closer ++ after))
      (construct.extract (before ++ bracket.opener ++ other ++ bracket.closer ++ after)) := by
  have agreed : Agree (outside before.utf8ByteSize content.utf8ByteSize other.utf8ByteSize).starts
      (Span.Corresponds (outside before.utf8ByteSize content.utf8ByteSize other.utf8ByteSize))
      (construct.extract (before ++ bracket.opener ++ content ++ bracket.closer ++ after))
      (construct.extract (before ++ bracket.opener ++ other ++ bracket.closer ++ after)) := by
    cases construct with
    | ifHeader | forHeader | switchHeader =>
      exact recognize_group (Header.respects _) Header.regroups (fun _ => .keyword) bracket after
        front closed balanced sealed even fits also
    | label =>
      exact recognize_group Label.respects Label.regroups (fun _ => .keyword) bracket after
        front closed balanced sealed even fits also
    | expression =>
      exact recognize_group Expression.respects Expression.regroups
        (fun _ => ⟨rfl, .empty, .none, rfl⟩) bracket after front closed balanced sealed even fits also
    | arguments =>
      exact recognize_group Arguments.respects Arguments.regroups (fun _ => ⟨.empty, .none⟩) bracket
        after front closed balanced sealed even fits also
  refine agreed.mono (fun _ _ => displaced_of_outside) fun left right same => ?_
  cases same with
  | covers matched => exact ⟨displaced_of_outside matched.start, displaced_of_outside matched.stop⟩
  | point aligned => exact ⟨displaced_of_outside aligned, displaced_of_outside aligned⟩

theorem extract_group_opaque_call :
    ∃ span, Construct.expression.extract
        ("f" ++ Bracket.paren.opener ++ "\x7b:\x7d\n" ++ Bracket.paren.closer ++ " \x7b") = .ok span ∧
      Displaced 1 1 4 0 span.start ∧ Displaced 1 1 4 4 span.stop := by
  have plain : (lexemes "x".toList).map Lexeme.tag = [.identifier] := by decide +kernel
  have block : (lexemes "\x7b:\x7d\n".toList).map Lexeme.tag =
      [.opening .brace, .colon, .closing .brace, .trivia .newline] := by decide +kernel
  have extracted : Construct.expression.extract
      ("f" ++ Bracket.paren.opener ++ "x" ++ Bracket.paren.closer ++ " \x7b") = .ok ⟨0, 4⟩ := by
    decide +kernel
  have agreed := extract_group_opaque .expression .paren "f" "x" "\x7b:\x7d\n" " \x7b"
    (by decide +kernel) (by decide +kernel) (by rw [plain]; exact .plain rfl .nil)
    (by decide +kernel) (by rw [block]; exact .group .brace (.plain rfl .nil) (.plain rfl .nil))
    (by decide +kernel) (by decide +kernel)
  rw [extracted] at agreed
  obtain ⟨span, same, moved⟩ := agreed.exists_ok
  exact ⟨span, same, moved⟩

end FragmentBounds

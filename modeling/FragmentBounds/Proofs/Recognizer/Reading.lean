import FragmentBounds.Proofs.Token.Hull

/-! Runs of a machine taken apart: the tokens it reads without coming to an
answer, and what brings it to its answer after them. -/
namespace FragmentBounds.Recognizer

variable {σ α : Type}

/-- The machine takes tokens in, from one state and gap to another, and still
has no answer. -/
inductive Reads (machine : Recognizer σ α) : σ → Gap → List Token → σ → Gap → Prop
  | nil (state : σ) (gap : Gap) : Reads machine state gap [] state gap
  | trivia {state last : σ} {gap lastGap : Gap} {token : Token} {pending : List Token}
      (trivia : token.isTrivia) (more : Reads machine state (gap.extend token) pending last lastGap) :
      Reads machine state gap (token :: pending) last lastGap
  | step {state next last : σ} {gap lastGap : Gap} {token : Token} {pending : List Token}
      (significant : token.isTrivia = false) (wellFormed : token.tag.isMalformed = false)
      (stepped : machine.step state gap token = .ok (.more next))
      (more : Reads machine next .closed pending last lastGap) :
      Reads machine state gap (token :: pending) last lastGap

/-- What settles the result of a run: the end of the source, a malformed token,
or a token that the machine does not go on from. -/
inductive Settles (machine : Recognizer σ α) (size : Nat) (state : σ) (gap : Gap) :
    List Token → Except Fault α → Prop
  | atEnd : Settles machine size state gap [] (machine.atEnd state size)
  | malformed {token : Token} {pending : List Token} {kind : Malformation}
      (malformed : token.tag = .malformed kind) :
      Settles machine size state gap (token :: pending) (.error (.malformed kind token.span.start))
  | fault {token : Token} {pending : List Token} {fault : Fault}
      (significant : token.isTrivia = false) (wellFormed : token.tag.isMalformed = false)
      (stepped : machine.step state gap token = .error fault) :
      Settles machine size state gap (token :: pending) (.error fault)
  | done {token : Token} {pending : List Token} {result : α}
      (significant : token.isTrivia = false) (wellFormed : token.tag.isMalformed = false)
      (stepped : machine.step state gap token = .ok (.done result)) :
      Settles machine size state gap (token :: pending) (.ok result)

variable {machine : Recognizer σ α} {state last : σ} {gap lastGap : Gap} {front : List Token}

theorem Reads.append (reads : Reads machine state gap front last lastGap) {back : List Token}
    {final : σ} {finalGap : Gap} (more : Reads machine last lastGap back final finalGap) :
    Reads machine state gap (front ++ back) final finalGap := by
  induction reads with
  | nil => exact more
  | trivia trivia _ ih => exact .trivia trivia (ih more)
  | step significant wellFormed stepped _ ih => exact .step significant wellFormed stepped (ih more)

theorem Reads.split {back : List Token} {final : σ} {finalGap : Gap}
    (reads : Reads machine state gap (front ++ back) final finalGap) :
    ∃ last lastGap, Reads machine state gap front last lastGap ∧
      Reads machine last lastGap back final finalGap := by
  induction front generalizing state gap with
  | nil => exact ⟨state, gap, .nil state gap, reads⟩
  | cons token front ih =>
    cases reads with
    | trivia trivia more =>
      obtain ⟨last, lastGap, first, second⟩ := ih more
      exact ⟨last, lastGap, .trivia trivia first, second⟩
    | step significant wellFormed stepped more =>
      obtain ⟨last, lastGap, first, second⟩ := ih more
      exact ⟨last, lastGap, .step significant wellFormed stepped first, second⟩

theorem Reads.of_significant {token : Token} {pending : List Token}
    (reads : Reads machine state gap (token :: pending) last lastGap)
    (significant : token.isTrivia = false) :
    ∃ next, token.tag.isMalformed = false ∧ machine.step state gap token = .ok (.more next) ∧
      Reads machine next .closed pending last lastGap := by
  cases reads with
  | trivia trivia _ => simp [significant] at trivia
  | step _ wellFormed stepped more => exact ⟨_, wellFormed, stepped, more⟩

theorem Reads.run_append (reads : Reads machine state gap front last lastGap) (size : Nat)
    (back : List Token) :
    machine.run size state gap (front ++ back) = machine.run size last lastGap back := by
  induction reads with
  | nil => rfl
  | trivia trivia _ ih => rw [List.cons_append, run_trivia machine size _ _ _ trivia, ih]
  | step significant wellFormed stepped _ ih =>
    rw [List.cons_append, run_significant machine size _ _ _ significant wellFormed, stepped]
    exact ih

def after? (machine : Recognizer σ α) : σ → Gap → List Token → Option σ
  | state, _, [] => some state
  | state, gap, token :: pending =>
    if token.isTrivia then machine.after? state (gap.extend token) pending
    else if token.tag.isMalformed then none
    else
      match machine.step state gap token with
      | .ok (.more next) => machine.after? next .closed pending
      | _ => none

theorem Reads.after?_append (reads : Reads machine state gap front last lastGap)
    (back : List Token) :
    machine.after? state gap (front ++ back) = machine.after? last lastGap back := by
  induction reads with
  | nil => rfl
  | trivia trivia _ ih => rw [List.cons_append, after?, if_pos trivia, ih]
  | step significant wellFormed stepped _ ih =>
    rw [List.cons_append, after?, if_neg (by simp [significant]), if_neg (by simp [wellFormed]),
      stepped]
    exact ih

theorem after?_of_done {token : Token} {pending : List Token} {result : α}
    (significant : token.isTrivia = false) (wellFormed : token.tag.isMalformed = false)
    (stepped : machine.step state gap token = .ok (.done result)) :
    machine.after? state gap (token :: pending) = none := by
  rw [after?, if_neg (by simp [significant]), if_neg (by simp [wellFormed]), stepped]

/-- The tokens that the machine takes in, each with the state that it meets. -/
def taken (machine : Recognizer σ α) : σ → Gap → List Token → List (σ × Token)
  | _, _, [] => []
  | state, gap, token :: pending =>
    if token.isTrivia then machine.taken state (gap.extend token) pending
    else if token.tag.isMalformed then []
    else
      match machine.step state gap token with
      | .ok (.more next) => (state, token) :: machine.taken next .closed pending
      | _ => []

theorem taken_trivia (machine : Recognizer σ α) (state : σ) (gap : Gap) {token : Token}
    (pending : List Token) (trivia : token.isTrivia) :
    machine.taken state gap (token :: pending) = machine.taken state (gap.extend token) pending := by
  rw [taken, if_pos trivia]

theorem taken_step {token : Token} {next : σ} (pending : List Token)
    (significant : token.isTrivia = false) (wellFormed : token.tag.isMalformed = false)
    (stepped : machine.step state gap token = .ok (.more next)) :
    machine.taken state gap (token :: pending) =
      (state, token) :: machine.taken next .closed pending := by
  rw [taken, if_neg (by simp [significant]), if_neg (by simp [wellFormed]), stepped]

theorem Reads.taken_append (reads : Reads machine state gap front last lastGap)
    (back : List Token) :
    machine.taken state gap (front ++ back) =
      machine.taken state gap front ++ machine.taken last lastGap back := by
  induction reads with
  | nil => rfl
  | trivia trivia _ ih =>
    rw [List.cons_append, taken_trivia _ _ _ _ trivia, taken_trivia _ _ _ _ trivia, ih]
  | step significant wellFormed stepped _ ih =>
    rw [List.cons_append, taken_step _ significant wellFormed stepped,
      taken_step _ significant wellFormed stepped, ih, List.cons_append]

theorem reads_trivia (machine : Recognizer σ α) (state : σ) (gap : Gap) {tokens : List Token}
    (trivia : ∀ token ∈ tokens, token.isTrivia) :
    ∃ lastGap, Reads machine state gap tokens state lastGap := by
  induction tokens generalizing gap with
  | nil => exact ⟨gap, .nil state gap⟩
  | cons token tokens ih =>
    obtain ⟨lastGap, more⟩ := ih (gap.extend token) fun other member =>
      trivia other (List.mem_cons_of_mem _ member)
    exact ⟨lastGap, .trivia (trivia token (by simp)) more⟩

theorem Reads.eq_of_trivia (reads : Reads machine state gap front last lastGap)
    (trivia : ∀ token ∈ front, token.isTrivia) : last = state := by
  induction reads with
  | nil => rfl
  | trivia _ _ ih => exact ih fun other member => trivia other (List.mem_cons_of_mem _ member)
  | step significant _ _ _ _ => simp [trivia] at significant

theorem Reads.after_trivia {start : Nat} {before inside : List Lexeme}
    (trivia : ∀ lexeme ∈ before, lexeme.tag.isTrivia)
    (reads : Reads machine state gap (tokensFrom start (before ++ inside)) last lastGap) :
    ∃ first, Reads machine state first
      (tokensFrom (start + Text.byteSize (before.flatMap Lexeme.text)) inside) last lastGap := by
  rw [tokensFrom_append] at reads
  obtain ⟨begun, first, front, core⟩ := reads.split
  obtain rfl := front.eq_of_trivia (isTrivia_tokensFrom trivia)
  exact ⟨first, core⟩

theorem Reads.before_trivia {start : Nat} {inside after : List Lexeme}
    (trivia : ∀ lexeme ∈ after, lexeme.tag.isTrivia)
    (reads : Reads machine state gap (tokensFrom start (inside ++ after)) last lastGap) :
    ∃ final, Reads machine state gap (tokensFrom start inside) last final := by
  rw [tokensFrom_append] at reads
  obtain ⟨ended, final, core, behind⟩ := reads.split
  obtain rfl := behind.eq_of_trivia (isTrivia_tokensFrom trivia)
  exact ⟨final, core⟩

theorem Reads.cut_at {read seen unseen : List Token} {mark : Token}
    (reads : Reads machine state gap read last lastGap)
    (cut : read.filter (fun token => !token.isTrivia) = seen ++ mark :: unseen) :
    ∃ before after reached reachedGap next, read = before ++ mark :: after ∧
      before.filter (fun token => !token.isTrivia) = seen ∧
      after.filter (fun token => !token.isTrivia) = unseen ∧
      Reads machine state gap before reached reachedGap ∧
      mark.isTrivia = false ∧ mark.tag.isMalformed = false ∧
      machine.step reached reachedGap mark = .ok (.more next) ∧
      Reads machine next .closed after last lastGap := by
  obtain ⟨ahead, behind, rfl, rfl, kept⟩ := List.filter_eq_append_iff.mp cut
  obtain ⟨skipped, after, rfl, trivia, visible, rfl⟩ := List.filter_eq_cons_iff.mp kept
  rw [← List.append_assoc] at reads
  obtain ⟨reached, reachedGap, first, second⟩ := reads.split
  have nothing : skipped.filter (fun token => !token.isTrivia) = [] := by simpa using trivia
  cases second with
  | trivia trivia _ => simp [trivia] at visible
  | step significant wellFormed stepped more =>
    exact ⟨ahead ++ skipped, after, reached, reachedGap, _, by simp, by simp [nothing], rfl, first,
      significant, wellFormed, stepped, more⟩

theorem Settles.of_tag {size : Nat} {token : Token} {pending : List Token} {result : α} {tag : Tag}
    (same : token.tag = tag) (visible : tag.isTrivia = false) (sound : tag.isMalformed = false)
    (stepped : machine.step state gap token = .ok (.done result)) :
    Settles machine size state gap (token :: pending) (.ok result) := by
  subst same
  exact .done visible sound stepped

theorem Settles.run_eq {size : Nat} {tokens : List Token} {result : Except Fault α}
    (settles : Settles machine size state gap tokens result) :
    machine.run size state gap tokens = result := by
  cases settles with
  | atEnd => rfl
  | malformed malformed => exact run_malformed machine size state gap _ malformed
  | fault significant wellFormed stepped | done significant wellFormed stepped =>
    rw [run_significant machine size state gap _ significant wellFormed, stepped]
    rfl

theorem Settles.append {size : Nat} {token : Token} {pending : List Token} {result : Except Fault α}
    (settles : Settles machine size state gap (token :: pending) result) (other : Nat)
    (more : List Token) : Settles machine other state gap (token :: pending ++ more) result := by
  cases settles with
  | malformed malformed => exact .malformed malformed
  | fault significant wellFormed stepped => exact .fault significant wellFormed stepped
  | done significant wellFormed stepped => exact .done significant wellFormed stepped

theorem settles_eq_ok {size : Nat} {tokens : List Token} {result : α}
    (settles : Settles machine size state gap tokens (.ok result)) :
    (tokens = [] ∧ machine.atEnd state size = .ok result) ∨ ∃ token pending,
      tokens = token :: pending ∧ token.isTrivia = false ∧ token.tag.isMalformed = false ∧
        machine.step state gap token = .ok (.done result) := by
  generalize same : Except.ok result = outcome at settles
  cases settles with
  | atEnd => exact .inl ⟨rfl, rfl⟩
  | malformed | fault => cases same
  | done significant wellFormed stepped =>
    cases same
    exact .inr ⟨_, _, rfl, significant, wellFormed, stepped⟩

theorem reads_settles (machine : Recognizer σ α) (size : Nat) (state : σ) (gap : Gap)
    (tokens : List Token) :
    ∃ front back last lastGap, tokens = front ++ back ∧ Reads machine state gap front last lastGap ∧
      Settles machine size last lastGap back (machine.run size state gap tokens) := by
  induction tokens generalizing state gap with
  | nil => exact ⟨[], [], state, gap, rfl, .nil state gap, .atEnd⟩
  | cons token tokens ih =>
    cases trivia : token.isTrivia with
    | true =>
      obtain ⟨front, back, last, lastGap, rfl, reads, settles⟩ := ih state (gap.extend token)
      rw [run_trivia machine size state gap _ trivia]
      exact ⟨token :: front, back, last, lastGap, rfl, .trivia trivia reads, settles⟩
    | false =>
      cases malformed : token.tag.isMalformed with
      | true =>
        obtain ⟨kind, tag⟩ := Tag.isMalformed_iff.mp malformed
        rw [run_malformed machine size state gap _ tag]
        exact ⟨[], _, state, gap, rfl, .nil state gap, .malformed tag⟩
      | false =>
        rw [run_significant machine size state gap _ trivia malformed]
        cases stepped : machine.step state gap token with
        | error fault => exact ⟨[], _, state, gap, rfl, .nil state gap, .fault trivia malformed stepped⟩
        | ok outcome =>
          cases outcome with
          | done result =>
            exact ⟨[], _, state, gap, rfl, .nil state gap, .done trivia malformed stepped⟩
          | more next =>
            obtain ⟨front, back, last, lastGap, rfl, reads, settles⟩ := ih next .closed
            exact ⟨token :: front, back, last, lastGap, rfl, .step trivia malformed stepped reads, settles⟩

theorem Reads.wellFormed (reads : Reads machine state gap front last lastGap) :
    ∀ token ∈ front, token.tag.isMalformed = false := by
  induction reads with
  | nil => simp
  | @trivia _ _ _ _ token _ trivia _ ih =>
    have sound : token.tag.isMalformed = false := Tag.isMalformed_of_isTrivia trivia
    simpa [sound] using ih
  | step _ sound _ _ ih => simpa [sound] using ih

theorem Reads.invariant {P : σ → Prop} (reads : Reads machine state gap front last lastGap)
    (start : P state)
    (keeps : ∀ state gap token next, token ∈ front → P state →
      machine.step state gap token = .ok (.more next) → P next) : P last := by
  induction reads with
  | nil => exact start
  | trivia _ _ ih =>
    exact ih start fun state gap token next member => keeps state gap token next (by simp [member])
  | step _ _ stepped _ ih =>
    refine ih (keeps _ _ _ _ (by simp) start stepped) ?_
    exact fun state gap token next member => keeps state gap token next (by simp [member])

theorem Reads.hull {P : Option Span → σ → Prop}
    (widens : ∀ fragment state gap token next, P fragment state →
      machine.step state gap token = .ok (.more next) → P (extendFragment fragment token) next)
    (reads : Reads machine state gap front last lastGap) {fragment : Option Span}
    (start : P fragment state) : P (hull fragment front) last := by
  induction reads generalizing fragment with
  | nil => exact start
  | trivia trivia _ ih =>
    rw [hull_cons_trivia _ _ trivia]
    exact ih start
  | step significant _ stepped _ ih =>
    rw [hull_cons_significant _ _ significant]
    exact ih (widens _ _ _ _ _ start stepped)

theorem recognize_of_fits (machine : Recognizer σ α) {source : String}
    (fits : source.utf8ByteSize ≤ maxOffset) :
    machine.recognize source =
      machine.run source.utf8ByteSize machine.start .closed (tokens source) := by
  rw [recognize, TokenStream.ofSource, if_neg (Nat.not_lt.mpr fits)]
  rfl

theorem recognize_eq_ok {source : String} {result : α}
    (recognized : machine.recognize source = .ok result) :
    source.utf8ByteSize ≤ maxOffset ∧ ∃ front back last lastGap, tokens source = front ++ back ∧
      Reads machine machine.start .closed front last lastGap ∧
        Settles machine source.utf8ByteSize last lastGap back (.ok result) := by
  rcases Nat.lt_or_ge maxOffset source.utf8ByteSize with large | fits
  · rw [recognize, TokenStream.ofSource, if_pos large] at recognized
    cases recognized
  · rw [recognize_of_fits machine fits] at recognized
    have parts := reads_settles machine source.utf8ByteSize machine.start .closed (tokens source)
    rw [recognized] at parts
    exact ⟨fits, parts⟩

end FragmentBounds.Recognizer

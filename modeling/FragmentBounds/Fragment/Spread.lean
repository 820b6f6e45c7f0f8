import FragmentBounds.Recognizer

/-! Whether a fragment ends with a spread mark. Malformed text never does. -/
namespace FragmentBounds.Spread

def recognizer : Recognizer (Option Tag) Bool :=
  ⟨none, fun _ _ token => .ok (.more (some token.tag)), fun last _ => .ok (last == some .ellipsis)⟩

def endsWithSpread (fragment : String) : Bool :=
  (recognizer.recognize fragment).toOption.getD false

end FragmentBounds.Spread

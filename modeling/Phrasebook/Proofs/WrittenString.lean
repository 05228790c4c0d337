import Phrasebook.Call
import Phrasebook.Import
import Phrasebook.Proofs.Escape
import Phrasebook.Proofs.Outcome

/-!
Strings as they are written into a file: the key of a call, and the module of an import. Between
its quotes such a string is closed: no quote in it ends it, and its last backslash is no escape of
the quote behind it. Decoding gives back what was written, and a declaration that was written for a
module is found again among the imports from it.
-/

namespace Phrasebook

open Text

namespace Text.Escape

/-- Whether a text ends with a backslash that escapes the next character, and is not itself
escaped. -/
def escapesNext (text : List Char) : Bool := text.foldl (fun open' c => !open' && c == '\\') false

/-- Texts that may stand between two quotes: an escape takes the character behind it along, and
nowhere else is there a quote. -/
inductive Enclosed (quote : Char) : List Char → Prop
  | nil : Enclosed quote []
  | char {c : Char} {text : List Char} (noQuote : c ≠ quote) (noEscape : c ≠ '\\')
      (following : Enclosed quote text) : Enclosed quote (c :: text)
  | escape (c : Char) {text : List Char} (following : Enclosed quote text) :
      Enclosed quote ('\\' :: c :: text)

theorem escapesNext_char {c : Char} (h : c ≠ '\\') (text : List Char) :
    escapesNext (c :: text) = escapesNext text := by
  have hc : (c == '\\') = false := beq_false_of_ne h
  simp [escapesNext, hc]

theorem escapesNext_escape (c : Char) (text : List Char) :
    escapesNext ('\\' :: c :: text) = escapesNext text := by
  simp [escapesNext]

namespace Enclosed

variable {quote : Char} {text : List Char}

theorem append {a b : List Char} (ha : Enclosed quote a) (hb : Enclosed quote b) :
    Enclosed quote (a ++ b) := by
  induction ha with
  | nil => exact hb
  | char noQuote noEscape _ ih => exact .char noQuote noEscape ih
  | escape c _ ih => exact .escape c ih

theorem flatMap {f : Char → List Char} (h : ∀ c, Enclosed quote (f c)) (text : List Char) :
    Enclosed quote (text.flatMap f) := by
  induction text with
  | nil => exact .nil
  | cons c text ih => exact (h c).append ih

/-- The quote behind an enclosed text is not escaped. -/
theorem escapesNext_eq_false (h : Enclosed quote text) : escapesNext text = false := by
  induction h with
  | nil => rfl
  | char _ noEscape _ ih => rw [escapesNext_char noEscape, ih]
  | escape c _ ih => rw [escapesNext_escape, ih]

/-- A quote in an enclosed text, or in one that is closed behind it, is escaped or stands behind the
whole of the text. -/
theorem escaped_of_append (hquote : quote ≠ '\\') (h : Enclosed quote text) {p q r : List Char}
    (heq : text ++ r = p ++ quote :: q) : escapesNext p = true ∨ text.length ≤ p.length := by
  induction h generalizing p with
  | nil => exact .inr (Nat.zero_le _)
  | @char c text noQuote noEscape _ ih =>
      cases p with
      | nil => exact absurd (List.cons.inj heq).1 noQuote
      | cons d p =>
          obtain ⟨rfl, hrest⟩ := List.cons.inj heq
          rw [escapesNext_char noEscape, List.length_cons, List.length_cons]
          exact (ih hrest).imp_right Nat.succ_le_succ
  | @escape c text _ ih =>
      match p with
      | [] => exact absurd (List.cons.inj heq).1.symm hquote
      | [d] =>
          obtain ⟨rfl, -⟩ := List.cons.inj heq
          exact .inl rfl
      | d :: e :: p =>
          obtain ⟨rfl, hsecond⟩ := List.cons.inj heq
          obtain ⟨rfl, hrest⟩ := List.cons.inj hsecond
          rw [escapesNext_escape]
          exact (ih hrest).imp_right fun hle => by simpa using hle

theorem escaped_of_mem (hquote : quote ≠ '\\') (h : Enclosed quote text) {p q : List Char}
    (heq : text = p ++ quote :: q) : escapesNext p = true := by
  refine (h.escaped_of_append hquote (r := []) (by simpa using heq)).resolve_right fun hle => ?_
  have hlength := congrArg List.length heq
  simp only [List.length_append, List.length_cons] at hlength
  omega

end Enclosed

theorem enclosed_quotedChar (c : Char) : Enclosed '"' (quotedChar c) := by
  have hdigit : ∀ n < 16, hexDigit n ≠ '"' ∧ hexDigit n ≠ '\\' := by decide
  rcases quotedChar_cases c with ⟨e, -, hc, -⟩ | ⟨hlow, hc⟩ | ⟨hquote, hback, -, hc⟩
  · rw [hc]
    exact .escape e .nil
  · obtain ⟨hhigh, hhigh'⟩ := hdigit (c.toNat / 16) (by omega)
    obtain ⟨hunit, hunit'⟩ := hdigit (c.toNat % 16) (by omega)
    rw [hc]
    exact .escape 'u' (.char (by decide) (by decide) (.char (by decide) (by decide)
      (.char hhigh hhigh' (.char hunit hunit' .nil))))
  · rw [hc]
    exact .char hquote hback .nil

theorem enclosed_specifierChar (quote c : Char) : Enclosed quote (specifierChar quote c) := by
  unfold specifierChar
  by_cases hback : c = '\\'
  · subst hback
    exact .escape _ .nil
  · by_cases hc : c = quote
    · subst hc
      simpa [hback] using Enclosed.escape _ .nil
    · simpa [hback, hc] using Enclosed.char hc hback .nil

theorem enclosed_quotedBody (text : List Char) : Enclosed '"' (quotedBody text) :=
  .flatMap enclosed_quotedChar text

theorem enclosed_specifierBody (quote : Char) (text : List Char) :
    Enclosed quote (specifierBody quote text) :=
  .flatMap (enclosed_specifierChar quote) text

/-- A key is written without control characters. -/
theorem le_of_mem_quotedBody {text : List Char} {c : Char} (h : c ∈ quotedBody text) :
    0x20 ≤ c.toNat := by
  obtain ⟨d, -, hd⟩ := List.mem_flatMap.1 h
  have hdigit : ∀ n < 16, 0x20 ≤ (hexDigit n).toNat := by decide
  rcases quotedChar_cases d with ⟨e, he, hc, -⟩ | ⟨hlow, hc⟩ | ⟨-, -, hle, hc⟩
  · have hplain : ∀ x ∈ ['"', '\\', 'n', 'r', 't', 'b', 'f'], 0x20 ≤ x.toNat := by simp
    rw [hc, List.mem_pair] at hd
    rcases hd with rfl | rfl
    · decide
    · exact hplain c he
  · simp only [hc, List.mem_cons, List.not_mem_nil, or_false] at hd
    rcases hd with rfl | rfl | rfl | rfl | rfl | rfl
    · decide
    · decide
    · decide
    · decide
    · exact hdigit _ (by omega)
    · exact hdigit _ (by omega)
  · rw [hc, List.mem_singleton] at hd
    rwa [hd]

def replaceEach (c : Char) (new text : List Char) : List Char :=
  text.flatMap fun d => if d == c then new else [d]

/-- Doubling the backslashes and then escaping the quotes never escapes a backslash twice. -/
theorem specifierBody_eq_replaceEach {quote : Char} (hquote : quote ≠ '\\') (text : List Char) :
    specifierBody quote text =
      replaceEach quote ['\\', quote] (replaceEach '\\' ['\\', '\\'] text) := by
  rw [specifierBody, replaceEach, replaceEach, List.flatMap_assoc]
  refine List.flatMap_congr fun c _ => ?_
  by_cases hback : c = '\\'
  · simp [specifierChar, hback, hquote.symm]
  · by_cases hc : c = quote
    · simp [specifierChar, hc, hquote]
    · simp [specifierChar, hback, hc]

end Text.Escape

/-- The key of a call is written as one string that decodes to it: it holds no control character,
the quote behind it is the first that is not escaped, and whatever follows decodes as it would
alone. -/
theorem Call.key_kept (name key : List Char) :
    let body := Escape.quotedBody key
    Call.render name key =
        (Call.callee name).map (fun f => f ++ '(' :: '"' :: body ++ ['"', ')']) ∧
      (∀ c ∈ body, 0x20 ≤ c.toNat) ∧
      (∀ p q, body = p ++ '"' :: q → Escape.escapesNext p = true) ∧
      Escape.escapesNext body = false ∧
      Escape.decode body = .ok (Points.ofChars key) ∧
      ∀ r, (∀ p q, body ++ '"' :: r = p ++ '"' :: q → Escape.escapesNext p = false →
          body.length ≤ p.length) ∧
        Escape.decode (body ++ r) = (Escape.decode r).map (Points.ofChars key ++ ·) := by
  have henclosed := Escape.enclosed_quotedBody key
  refine ⟨?_, fun c => Escape.le_of_mem_quotedBody,
    fun p q heq => henclosed.escaped_of_mem (by decide) heq, henclosed.escapesNext_eq_false,
    Escape.decode_quotedBody key,
    fun r => ⟨fun p q heq hp => ?_, Escape.decode_quotedBody_append key r⟩⟩
  · simp [Call.render, Escape.quoted]
  · refine (henclosed.escaped_of_append (by decide) heq).resolve_left ?_
    simp [hp]

namespace ImportBinding

open Source

/-- The module that a declaration is written for is what its string decodes to: the quote is escaped
wherever it is in the name, and no backslash escapes the quote behind it. So a declaration that is
written with this string is among the imports from that module. -/
theorem source_kept (b : ImportBinding) (style : ImportStyle)
    (hquote : style.quote = '\'' ∨ style.quote = '"') :
    let body := Escape.specifierBody style.quote b.source
    b.render style = "import ".toList ++ b.clause style ++ " from ".toList ++
        (style.quote :: body ++ [style.quote]) ++ style.semicolon ∧
      body = Escape.replaceEach style.quote ['\\', style.quote]
        (Escape.replaceEach '\\' ['\\', '\\'] b.source) ∧
      (∀ p q, body = p ++ style.quote :: q → Escape.escapesNext p = true) ∧
      Escape.escapesNext body = false ∧
      Escape.decode body = .ok (Points.ofChars b.source) ∧
      ∀ (d : Document) (n module : Node) (matching : List Node), n ∈ d.nodes →
        n.isBranch (.importDeclaration false) = true → n.importSource? = some module →
        module.text = style.quote :: body ++ [style.quote] →
        d.importsFrom b.source = .ok matching → n ∈ matching := by
  have hback : style.quote ≠ '\\' := by
    rcases hquote with h | h <;> rw [h] <;> decide
  have henclosed := Escape.enclosed_specifierBody style.quote b.source
  have hdecode := Escape.decode_specifierBody hquote b.source
  have hrender (front body : List Char) (quote : Char) :
      front ++ quote :: body ++ quote :: style.semicolon =
        front ++ (quote :: body ++ [quote]) ++ style.semicolon := by
    simp
  refine ⟨hrender _ _ _, Escape.specifierBody_eq_replaceEach hback b.source,
    fun p q heq => henclosed.escaped_of_mem hback heq, henclosed.escapesNext_eq_false, hdecode, ?_⟩
  intro d n module matching hn himport hmodule htext hmatching
  have hvalue : Node.stringValue .specifier module.text = .ok (Points.ofChars b.source) := by
    rw [Node.stringValue, if_neg (by simp), htext, ← hdecode]
    simp [unquoted]
  rw [eq_filter_of_filterM hmatching, List.mem_filter]
  refine ⟨hn, ?_⟩
  simp [himport, hmodule, hvalue, Except.map, Except.toOption]

theorem source_kept_backslash :
    let b : ImportBinding := ⟨"a\\\"'\\u0041".toList, "t".toList, .named⟩
    ∃ d n matching, Document.parse (some "a.tsx") (b.render .standard) = .ok d ∧ n ∈ d.nodes ∧
      d.importsFrom b.source = .ok matching ∧ n ∈ matching ∧
      Escape.decode (Escape.specifierBody '"' b.source) = .ok (Points.ofChars b.source) := by
  intro b
  have hfacts : (Document.parse (some "a.tsx") (b.render .standard)).toOption.map (fun d =>
      (d.nodes.map fun n => (n.isBranch (.importDeclaration false), n.importSource?.map Node.text),
        (d.importsFrom b.source).toOption.isSome)) =
      some ([(true, some ('"' :: Escape.specifierBody '"' b.source ++ ['"']))], true) := by
    decide +kernel
  cases hparse : Document.parse (some "a.tsx") (b.render .standard) with
  | error e =>
      rw [hparse] at hfacts
      cases hfacts
  | ok d =>
      rw [hparse] at hfacts
      obtain ⟨hnodes, hmatching⟩ := Prod.mk.inj (Option.some.inj hfacts)
      obtain ⟨n, rest, hn, hfirst, -⟩ := List.map_eq_cons_iff.1 hnodes
      obtain ⟨himport, hsource⟩ := Prod.mk.inj hfirst
      obtain ⟨module, hmodule, htext⟩ := Option.map_eq_some_iff.1 hsource
      obtain ⟨-, -, -, -, hdecode, hfound⟩ := source_kept b .standard (.inr rfl)
      cases himports : d.importsFrom b.source with
      | error f =>
          rw [himports] at hmatching
          cases hmatching
      | ok matching =>
          have hmem : n ∈ d.nodes := by simp [hn]
          exact ⟨d, n, matching, rfl, hmem, himports,
            hfound d n module matching hmem himport hmodule htext himports, hdecode⟩

end ImportBinding

end Phrasebook

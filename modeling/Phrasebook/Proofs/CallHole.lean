import Phrasebook.Candidate
import Phrasebook.Proofs.ElementText
import Phrasebook.Proofs.Escape
import Phrasebook.Proofs.Quotation
import Phrasebook.Proofs.Sketch

/-!
A call of a translation function in braces, as it takes the place of a text or of the value of an
attribute: the tokens that the lexer makes of it, and the shape that they read as.
-/

namespace Phrasebook.Source

open Text

namespace Shape

/-! ### Comparing shapes -/

mutual

def same : Shape → Shape → Bool
  | token kind t, token kind' t' => kind == kind' && t == t'
  | run t, run t' => t == t'
  | node kind parts, node kind' parts' => kind == kind' && sameAll parts parts'
  | _, _ => false

def sameAll : List Shape → List Shape → Bool
  | [], [] => true
  | a :: as, b :: bs => same a b && sameAll as bs
  | _, _ => false

end

theorem eq_of_sameAll_of {as : List Shape} (h : ∀ a ∈ as, ∀ {b}, same a b = true → a = b)
    {bs : List Shape} (hs : sameAll as bs = true) : as = bs := by
  induction as generalizing bs with
  | nil =>
    cases bs with
    | nil => rfl
    | cons b bs => cases hs
  | cons a as ih =>
    cases bs with
    | nil => cases hs
    | cons b bs =>
      rw [sameAll, Bool.and_eq_true] at hs
      rw [h a (by simp) hs.1, ih (fun c hc => h c (by simp [hc])) hs.2]

theorem eq_of_same (a : Shape) : ∀ {b : Shape}, same a b = true → a = b := by
  induction a using induction_parts with
  | htoken kind t =>
    intro b h
    cases b <;> simp_all [same]
  | hrun t =>
    intro b h
    cases b <;> simp_all [same]
  | hnode kind parts ih =>
    intro b h
    cases b with
    | node kind' parts' =>
      rw [same, Bool.and_eq_true, beq_iff_eq] at h
      rw [h.1, eq_of_sameAll_of ih h.2]
    | token kind' t => cases h
    | run t => cases h

theorem eq_of_sameAll {as bs : List Shape} (h : sameAll as bs = true) : as = bs :=
  eq_of_sameAll_of (fun a _ => eq_of_same a) h

end Shape

/-! ### Reading -/

def Shape.access (object : Shape) (name : List Char) : Shape :=
  .node .member [object, .token none ⟨.sign, [], ['.']⟩, .token (some .property) ⟨.word, [], name⟩]

def Shape.path : List (List Char) → Shape
  | [] => .token (some .name) ⟨.word, [], []⟩
  | first :: others => others.foldl access (.token (some .name) ⟨.word, [], first⟩)

def Shape.call (path : List (List Char)) (body : List Char) : Shape :=
  .node .call [.path path, .node .arguments [.token none ⟨.sign, [], ['(']⟩,
    .token (some (.string .value)) ⟨.string, [], '"' :: body⟩, .token none ⟨.sign, [], [')']⟩]]

def Token.brace (value : Bool) (gap : List Char) : Token := ⟨.hole value, gap, ['\x7b']⟩

def Shape.callHole (value : Bool) (gap : List Char) (path : List (List Char)) (body : List Char) :
    Shape :=
  .node .group [.token none (.brace value gap), .call path body,
    .token none ⟨.holeEnd, [], ['\x7d']⟩]

def defaultPaths : List (List (List Char)) :=
  [["t".toList], ["translate".toList], ["formatMessage".toList],
    ["intl".toList, "formatMessage".toList]]

def readsAs (dialect : Dialect) (goal : Goal) (ts : List Token) (expected : List Shape) : Bool :=
  match readAll dialect goal ts with
  | .ok shapes => Shape.sameAll shapes expected
  | .error _ => false

theorem readAll_of_readsAs {dialect : Dialect} {goal : Goal} {ts : List Token}
    {expected : List Shape} (h : readsAs dialect goal ts expected = true) :
    readAll dialect goal ts = .ok expected := by
  unfold readsAs at h
  split at h
  · next shapes hshapes => rw [hshapes, Shape.eq_of_sameAll h]
  · cases h

theorem readsAs_callHole : ∀ dialect ∈ [Dialect.plain, .markup], ∀ path ∈ defaultPaths,
    readsAs dialect .hole (Shape.callHole false [] path []).tokens [.callHole false [] path []] =
      true := by
  decide +kernel

/-- The token with another body, if it is a string in double quotes, or with another beginning, if
it opens a hole. -/
def Token.rehole (value : Bool) (gap body : List Char) (t : Token) : Token :=
  if t.kind = .hole false then .brace value gap else t.requote body

variable (value : Bool) (gap body : List Char)

theorem rehole_callHole {path : List (List Char)} (h : path ∈ defaultPaths) :
    ∃ ts, (Shape.callHole false [] path []).tokens = .brace false [] :: ts ∧
      (Shape.callHole value gap path body).tokens =
        .brace value gap :: ts.map (Token.requote body) ∧
      (∀ t ∈ ts, t.rehole value gap body = t.requote body) ∧
      (Shape.callHole false [] path []).recast (Token.rehole value gap body) =
        .callHole value gap path body := by
  simp only [defaultPaths, List.mem_cons, List.not_mem_nil, or_false] at h
  rcases h with rfl | rfl | rfl | rfl <;>
    exact ⟨_, rfl, rfl, by simp [Shape.call, Shape.path, Shape.access, Token.rehole], rfl⟩

/-- A call of a default function in braces is read as such, whatever its string is and wherever the
braces stand. -/
theorem readAll_callHole (dialect : Dialect) {path : List (List Char)} (h : path ∈ defaultPaths) :
    readAll dialect .hole (Shape.callHole value gap path body).tokens =
      .ok [.callHole value gap path body] := by
  obtain ⟨ts, hclosed, hopen, hts, hshape⟩ := rehole_callHole value gap body h
  have hread : readAll dialect .hole (Shape.callHole false [] path []).tokens =
      .ok [.callHole false [] path []] :=
    readAll_of_readsAs (readsAs_callHole dialect (by cases dialect <;> simp) path h)
  rw [hclosed] at hread
  have hbrace : (Token.brace false []).rehole value gap body = .brace value gap := rfl
  have hother := readAll_hole body (Token.rehole value gap body) rfl (by rw [hbrace]; rfl) hts hread
  rwa [hbrace, ← hopen, List.map_singleton, hshape] at hother

/-! ### Lexing -/

namespace Control

/-- The body of a string up to where it is written. -/
theorem run_quotedChar (markup : Bool) (s : Control) (done : List Char) (c : Char) :
    ({ s with reading := .quoted '"' done .plain }).run markup (Escape.quotedChar c) =
      ([], { s with reading := .quoted '"' ((Escape.quotedChar c).reverse ++ done) .plain }) := by
  rcases Escape.quotedChar_cases c with ⟨e, he, hc, -⟩ | ⟨hlow, hc⟩ | ⟨hquote, hback, hlow, hc⟩
  · rw [hc]
    simp only [List.mem_cons, List.not_mem_nil, or_false] at he
    rcases he with rfl | rfl | rfl | rfl | rfl | rfl | rfl <;> rfl
  · have hzero : isHex '0' = true := rfl
    have hhigh : isHex (Escape.hexDigit (c.toNat / 16)) = true := Escape.isHex_hexDigit (by omega)
    have hdigit : isHex (Escape.hexDigit (c.toNat % 16)) = true := Escape.isHex_hexDigit (by omega)
    rw [hc]
    simp [run, step, stepQuoted, Escaping.isOpen, Escaping.next, Escaping.takesAlong, keep,
      Emission.andThen, hzero, hhigh, hdigit]
  · have hfeed : c ≠ '\n' := by
      rintro rfl
      exact absurd hlow (by decide)
    have hreturn : c ≠ '\r' := by
      rintro rfl
      exact absurd hlow (by decide)
    rw [hc]
    simp [run, step, stepQuoted, Escaping.isOpen, Escaping.takesAlong, keep, Emission.andThen,
      hquote, hback, hfeed, hreturn]

theorem run_quotedBody (markup : Bool) (s : Control) (done key : List Char) :
    ({ s with reading := .quoted '"' done .plain }).run markup (Escape.quotedBody key) =
      ([], { s with reading := .quoted '"' ((Escape.quotedBody key).reverse ++ done) .plain }) := by
  induction key generalizing done with
  | nil => rfl
  | cons c key ih =>
    rw [Escape.quotedBody, List.flatMap_cons, run_append, run_quotedChar, Emission.andThen]
    rw [Escape.quotedBody] at ih
    rw [ih]
    simp

def inCall (frames : List Frame) (recent : List Token) : Control :=
  { entering (.parenthesis false false :: .hole :: frames) with recent }

/-- The name of a default function and the parenthesis after it. -/
theorem run_path (markup : Bool) (frames : List Frame) {path : List (List Char)}
    (h : path ∈ defaultPaths) :
    ∃ recent, (entering (.hole :: frames)).run markup (['.'].intercalate path ++ ['(']) =
      ((Shape.path path).tokens ++ [⟨.sign, [], ['(']⟩], inCall frames recent) := by
  simp only [defaultPaths, List.mem_cons, List.not_mem_nil, or_false] at h
  rcases h with rfl | rfl | rfl | rfl
  · exact ⟨_, rfl⟩
  · exact ⟨_, rfl⟩
  · exact ⟨_, rfl⟩
  · -- one emission at a time, so that no state is evaluated more than once
    let intl : Token := ⟨.word, [], "intl".toList⟩
    let dotted : Control :=
      { entering (.hole :: frames) with
        reading := .word ['f'], recent := [⟨.sign, [], ['.']⟩, intl] }
    have hsplit : ['.'].intercalate ["intl".toList, "formatMessage".toList] ++ ['('] =
        "intl.".toList ++ (['f'] ++ "ormatMessage(".toList) := rfl
    have hintl : (entering (.hole :: frames)).run markup "intl.".toList =
        ([intl], { entering (.hole :: frames) with
          reading := .dot, operand := false, recent := [intl] }) := rfl
    have hdot : ({ entering (.hole :: frames) with
        reading := .dot, operand := false, recent := [intl] }).run markup ['f'] =
        ([⟨.sign, [], ['.']⟩], dotted) := rfl
    have hmessage : dotted.run markup "ormatMessage(".toList =
        ([⟨.word, [], "formatMessage".toList⟩, ⟨.sign, [], ['(']⟩], inCall frames _) := rfl
    rw [hsplit, run_append, hintl, Emission.andThen, run_append, hdot, Emission.andThen, hmessage]
    exact ⟨_, rfl⟩

/-- A string, the end of the call that it is the argument of, and that of the braces. -/
theorem run_argument (markup : Bool) (frames : List Frame) (recent : List Token)
    (key : List Char) :
    (inCall frames recent).run markup (Escape.quoted key ++ [')', '\x7d']) =
      ([⟨.string, [], '"' :: (Escape.quotedBody key ++ ['"'])⟩, ⟨.sign, [], [')']⟩,
        ⟨.holeEnd, [], ['\x7d']⟩], resting frames) := by
  have hquote : (inCall frames recent).run markup ['"'] =
      ([], { inCall frames recent with reading := .quoted '"' ['"'] .plain }) := rfl
  have hend (done : List Char) :
      ({ inCall frames recent with reading := .quoted '"' done .plain }).run markup
        ['"', ')', '\x7d'] =
      ([⟨.string, [], ('"' :: done).reverse⟩, ⟨.sign, [], [')']⟩, ⟨.holeEnd, [], ['\x7d']⟩],
        resting frames) := rfl
  have hsplit : Escape.quoted key ++ [')', '\x7d'] =
      ['"'] ++ (Escape.quotedBody key ++ ['"', ')', '\x7d']) := by
    simp [Escape.quoted]
  rw [hsplit, run_append, hquote, Emission.andThen, run_append, run_quotedBody,
    Emission.andThen, hend]
  simp

/-- A call of a default function in braces, where the opening brace is read as such. -/
theorem run_callHole (markup : Bool) {s : Control} {value : Bool} {gap : List Char}
    {frames : List Frame} (hs : s.step markup '\x7b' =
      ([.brace value gap], entering (.hole :: frames)))
    {path : List (List Char)} (h : path ∈ defaultPaths) (key : List Char) :
    s.run markup
        ('\x7b' :: (['.'].intercalate path ++ '(' :: Escape.quoted key ++ [')']) ++ ['\x7d']) =
      ((Shape.callHole value gap path (Escape.quotedBody key ++ ['"'])).tokens,
        resting frames) := by
  obtain ⟨recent, hpath⟩ := run_path markup frames h
  have hopen : s.run markup ['\x7b'] = ([.brace value gap], entering (.hole :: frames)) := by
    rw [run, hs]
    rfl
  have hsplit : '\x7b' :: (['.'].intercalate path ++ '(' :: Escape.quoted key ++ [')']) ++
      ['\x7d'] = ['\x7b'] ++ ((['.'].intercalate path ++ ['(']) ++
        (Escape.quoted key ++ [')', '\x7d'])) := by
    simp
  rw [hsplit, run_append, hopen, Emission.andThen, run_append, hpath, Emission.andThen,
    run_argument]
  simp [Shape.callHole, Shape.call]

end Control

end Phrasebook.Source

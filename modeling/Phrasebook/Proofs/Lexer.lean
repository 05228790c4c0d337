import Phrasebook.Source.Lexer

/-!
The lexer keeps every character: the tokens it has finished, followed by the characters of the
token at hand, are the text it has read. And it reads in one direction only, so the tokens of a
text are those of its beginning followed by what the state after the beginning makes of the rest.
-/

namespace Phrasebook.Source

def charsOf (tokens : List Token) : List Char := tokens.flatMap Token.chars

@[simp] theorem charsOf_nil : charsOf [] = [] := rfl

@[simp] theorem charsOf_cons (t : Token) (ts : List Token) :
    charsOf (t :: ts) = t.gap ++ t.text ++ charsOf ts := rfl

@[simp] theorem charsOf_append (ts us : List Token) :
    charsOf (ts ++ us) = charsOf ts ++ charsOf us :=
  List.flatMap_append

def Reading.chars : Reading → List Char
  | .nothing => []
  | .importing after => "import".toList ++ after.reverse
  | .dot => ['.']
  | .hash => ['#']
  | .slash => ['/']
  | .contentAngle => ['<']
  | .chunk done e => done.reverse ++ (if e == .dollar then ['$'] else [])
  | .angle before => '<' :: before.reverse
  | .angleName before name => '<' :: (before.reverse ++ name.reverse)
  | .angleSpace before name after => '<' :: (before.reverse ++ name.reverse ++ after.reverse)
  | .angleWord before name after second =>
      '<' :: (before.reverse ++ name.reverse ++ after.reverse ++ second.reverse)
  | .word done | .wordEscape done _ | .number done | .privateWord done | .hashBang done
  | .lineComment done | .blockComment done | .regex done _ _ | .regexFlags done
  | .quoted _ done _ | .tagWord done _ | .attribute _ done _ | .content done | .broken done _ =>
      done.reverse

namespace Reading

@[simp] theorem chars_nothing : nothing.chars = [] := rfl

@[simp] theorem chars_word (done : List Char) : (word done).chars = done.reverse := rfl

@[simp] theorem chars_wordEscape (done : List Char) (e : Escaping) :
    (wordEscape done e).chars = done.reverse := rfl

@[simp] theorem chars_importing (after : List Char) :
    (importing after).chars = "import".toList ++ after.reverse := rfl

@[simp] theorem chars_dot : dot.chars = ['.'] := rfl

@[simp] theorem chars_number (done : List Char) : (number done).chars = done.reverse := rfl

@[simp] theorem chars_hash : hash.chars = ['#'] := rfl

@[simp] theorem chars_privateWord (done : List Char) :
    (privateWord done).chars = done.reverse := rfl

@[simp] theorem chars_hashBang (done : List Char) : (hashBang done).chars = done.reverse := rfl

@[simp] theorem chars_slash : slash.chars = ['/'] := rfl

@[simp] theorem chars_lineComment (done : List Char) :
    (lineComment done).chars = done.reverse := rfl

@[simp] theorem chars_blockComment (done : List Char) :
    (blockComment done).chars = done.reverse := rfl

@[simp] theorem chars_regex (done : List Char) (inClass escaped : Bool) :
    (regex done inClass escaped).chars = done.reverse := rfl

@[simp] theorem chars_regexFlags (done : List Char) : (regexFlags done).chars = done.reverse := rfl

@[simp] theorem chars_quoted (quote : Char) (done : List Char) (e : Escaping) :
    (quoted quote done e).chars = done.reverse := rfl

@[simp] theorem chars_chunk (done : List Char) (e : Escaping) :
    (chunk done e).chars = done.reverse ++ (if e == .dollar then ['$'] else []) := rfl

@[simp] theorem chars_angle (before : List Char) :
    (angle before).chars = '<' :: before.reverse := rfl

@[simp] theorem chars_angleName (before name : List Char) :
    (angleName before name).chars = '<' :: (before.reverse ++ name.reverse) := rfl

@[simp] theorem chars_angleSpace (before name after : List Char) :
    (angleSpace before name after).chars =
      '<' :: (before.reverse ++ name.reverse ++ after.reverse) := rfl

@[simp] theorem chars_angleWord (before name after second : List Char) :
    (angleWord before name after second).chars =
      '<' :: (before.reverse ++ name.reverse ++ after.reverse ++ second.reverse) := rfl

@[simp] theorem chars_tagWord (done : List Char) (hyphen : Bool) :
    (tagWord done hyphen).chars = done.reverse := rfl

@[simp] theorem chars_attribute (quote : Char) (done : List Char) (reference : Option (List Char)) :
    (Reading.attribute quote done reference).chars = done.reverse := rfl

@[simp] theorem chars_content (done : List Char) : (content done).chars = done.reverse := rfl

@[simp] theorem chars_contentAngle : contentAngle.chars = ['<'] := rfl

@[simp] theorem chars_broken (done : List Char) (sound : Nat) :
    (broken done sound).chars = done.reverse := rfl

end Reading

/-- What has been read since the last token, with the white space before it. -/
def Control.pending (s : Control) : List Char := s.gap.reverse ++ s.reading.chars

def Emission.chars (e : Emission) : List Char := charsOf e.1 ++ e.2.pending

@[simp] theorem Emission.chars_mk (ts : List Token) (s : Control) :
    Emission.chars (ts, s) = charsOf ts ++ s.pending := rfl

@[simp] theorem Emission.chars_andThen (e : Emission) (f : Control → Emission) :
    (e.andThen f).chars = charsOf e.1 ++ (f e.2).chars := by
  simp [Emission.chars, Emission.andThen]

/-- A change that touches nothing pending. -/
@[simp] theorem Emission.chars_update (e : Emission) (f : Control → Control)
    (h : (f e.2).pending = e.2.pending) : (e.update f).chars = e.chars := by
  rw [Emission.chars, Emission.chars, Emission.update, h]

namespace Control

@[simp] theorem pending_mk (frames : List Frame) (gap : List Char) (reading : Reading)
    (operand wasOperand : Bool) (line : LineState) (typed : Option Typing) (mark : Mark)
    (classHead : Option ClassHead) (recent : List Token) (importing : Bool) :
    pending ⟨frames, gap, reading, operand, wasOperand, line, typed, mark, classHead, recent,
      importing⟩ = gap.reverse ++ reading.chars := rfl

@[simp] theorem resting_pending (frames : List Frame) : (resting frames).pending = [] := by
  unfold resting pending
  split <;> rfl

@[simp] theorem entering_pending (frames : List Frame) : (entering frames).pending = [] := rfl

/-! What is known before a token is about frames and types only. -/

@[simp] theorem prepare_gap (s : Control) (c : Char) : (s.prepare c).gap = s.gap := rfl

@[simp] theorem prepare_reading (s : Control) (c : Char) : (s.prepare c).reading = s.reading := rfl

@[simp] theorem emit_chars (s : Control) (kind : TokenKind) (text : List Char) (operand : Bool) :
    (s.emit kind text operand).chars = s.gap.reverse ++ text := by
  simp [Emission.chars, emit]

@[simp] theorem emit_frames_chars (s : Control) (kind : TokenKind) (text : List Char)
    (operand : Bool) (f : Control → List Frame) :
    ((s.emit kind text operand).update fun s => { s with frames := f s }).chars =
      s.gap.reverse ++ text := by
  rw [Emission.chars_update _ _ rfl, emit_chars]

@[simp] theorem emitEnd_chars (s : Control) (c : Char) :
    (s.emitEnd c).chars = s.gap.reverse ++ [c] := by
  simp [Emission.chars, emitEnd, start]

@[simp] theorem emitImport_fst (s : Control) :
    s.emitImport.1 = [⟨.importWord, s.gap.reverse, "import".toList⟩] := rfl

@[simp] theorem emitImport_gap (s : Control) : s.emitImport.2.gap = [] := rfl

@[simp] theorem emitComment_chars (s : Control) (done : List Char) :
    (s.emitComment done).chars = s.gap.reverse ++ done.reverse := by
  simp [Emission.chars, emitComment]

@[simp] theorem keep_chars (s : Control) (r : Reading) :
    (s.keep r).chars = s.gap.reverse ++ r.chars := rfl

@[simp] theorem closeFrame_chars (s : Control) (c : Char) (frames : List Frame) (operand : Bool) :
    (s.closeFrame c frames operand).chars = s.gap.reverse ++ [c] := by
  unfold closeFrame
  rw [Emission.chars_update _ _ rfl, emit_chars]

@[simp] theorem openFrame_chars (s : Control) (c : Char) (frame : Frame) :
    (s.openFrame c frame).chars = s.gap.reverse ++ [c] := by
  unfold openFrame
  rw [Emission.chars_update _ _ rfl, emit_chars]

@[simp] theorem closeBrace_chars (s : Control) :
    s.closeBrace.chars = s.gap.reverse ++ ['\x7d'] := by
  unfold closeBrace
  split
  · split
    · rw [emitEnd_chars]
    · rw [Emission.chars_update _ _ rfl, emit_chars]
  · simp [Emission.chars, start]
  · rw [Emission.chars_update _ _ rfl, emit_chars]
  · simp [Emission.chars]
  · rw [emit_chars]

@[simp] theorem closeTypeArguments_chars (s : Control) (frames : List Frame) :
    (s.closeTypeArguments frames).chars = s.gap.reverse ++ ['>'] := by
  unfold closeTypeArguments
  split
  · simp [Emission.chars]
  · simp

@[simp] theorem sign_chars (s : Control) (c : Char) :
    (s.sign c).chars = s.gap.reverse ++ [c] := by
  unfold sign
  split
  case h_10 => split <;> simp
  all_goals simp

@[simp] theorem openTag_chars (s : Control) : s.openTag.chars = s.gap.reverse ++ ['<'] := by
  simp [openTag, Emission.chars]

@[simp] theorem openHole_chars (s : Control) :
    s.openHole.chars = s.gap.reverse ++ ['\x7b'] := by
  simp [openHole, Emission.chars]

@[simp] theorem closeTag_chars (s : Control) : s.closeTag.chars = s.gap.reverse ++ ['>'] := by
  unfold closeTag
  split
  · split
    · simp_all [Emission.chars]
    · simp [Emission.chars]
  · simp [Emission.chars]
  · simp

@[simp] theorem space_chars (s : Control) (c : Char) (h : s.reading = .nothing) :
    (s.space c).chars = s.gap.reverse ++ [c] := by
  simp [space, Emission.chars, pending, h]

/-- Element text and what comes after it, the text being there or not. -/
@[simp] theorem emitText_chars (s : Control) (kind : TokenKind) (done r : List Char) :
    charsOf (s.emitText kind done).1 ++ ((s.emitText kind done).2.gap.reverse ++ r) =
      s.gap.reverse ++ done.reverse ++ r := by
  unfold emitText
  split
  · simp_all
  · simp

@[simp] theorem beginTag_chars (s : Control) (c : Char) (h : s.reading = .nothing) :
    (s.beginTag c).chars = s.gap.reverse ++ [c] := by
  unfold beginTag
  repeat' split
  case isTrue.isFalse => rw [Emission.chars_update _ _ rfl, emit_chars]
  all_goals simp_all

@[simp] theorem emitWord_chars (s : Control) (word : List Char) :
    (s.emitWord word).chars = s.gap.reverse ++ word := by
  unfold emitWord
  rw [Emission.chars_update _ _ rfl, emit_chars]

@[simp] theorem beginToken_chars (markup : Bool) (s : Control) (c : Char) :
    (s.beginToken markup c).chars = s.gap.reverse ++ [c] := by
  unfold beginToken
  repeat' split
  case isFalse.isTrue => rw [Emission.chars_update _ _ rfl, emit_chars]
  all_goals simp_all

@[simp] theorem beginCode_chars (markup : Bool) (s : Control) (c : Char)
    (h : s.reading = .nothing) : (s.beginCode markup c).chars = s.gap.reverse ++ [c] := by
  unfold beginCode
  split
  · exact space_chars s c h
  · rw [beginToken_chars, prepare_gap]

@[simp] theorem begin_chars (markup : Bool) (s : Control) (c : Char) (h : s.reading = .nothing) :
    (s.begin markup c).chars = s.gap.reverse ++ [c] := by
  unfold begin
  split <;> simp [h]

/-! ### One step -/

@[simp] theorem sign_angle_fst (s : Control) :
    (s.sign '<').1 = [⟨.sign, s.gap.reverse, ['<']⟩] := by
  unfold sign
  split <;> first | rfl | simp_all

@[simp] theorem emit_fst (s : Control) (kind : TokenKind) (text : List Char) (operand : Bool) :
    (s.emit kind text operand).1 = [⟨kind, s.gap.reverse, text⟩] := rfl

@[simp] theorem emitWord_fst (s : Control) (word : List Char) :
    (s.emitWord word).1 = [⟨.word, s.gap.reverse, word⟩] := rfl

@[simp] theorem openTag_fst_chars (s : Control) :
    charsOf s.openTag.1 = s.gap.reverse ++ ['<'] := by
  simp [openTag]

theorem stepContent_chars (s : Control) (done : List Char) (c : Char) :
    (s.stepContent done c).chars = s.gap.reverse ++ done.reverse ++ [c] := by
  unfold stepContent
  repeat' split
  all_goals simp_all

theorem stepContentAngle_chars (s : Control) (c : Char) :
    (s.stepContentAngle c).chars = s.gap.reverse ++ ['<', c] := by
  unfold stepContentAngle
  split
  · simp_all [Emission.chars]
  · rw [Emission.chars_andThen, beginTag_chars _ _ rfl, openTag_fst_chars]
    simp [openTag, resting]

theorem stepTagWord_chars (s : Control) (done : List Char) (hyphen : Bool) (c : Char) :
    (s.stepTagWord done hyphen c).chars = s.gap.reverse ++ done.reverse ++ [c] := by
  unfold stepTagWord
  repeat' split
  · simp
  · simp
  · rw [Emission.chars_andThen, beginTag_chars _ _ rfl]
    simp [emit]

theorem stepAttribute_chars (s : Control) (quote : Char) (done : List Char)
    (reference : Option (List Char)) (c : Char) :
    (s.stepAttribute quote done reference c).chars = s.gap.reverse ++ done.reverse ++ [c] := by
  unfold stepAttribute
  repeat' split
  all_goals simp

theorem stepImporting_chars (markup : Bool) (s : Control) (after : List Char) (c : Char) :
    (s.stepImporting markup after c).chars =
      s.gap.reverse ++ "import".toList ++ after.reverse ++ [c] := by
  unfold stepImporting
  split
  · simp
  · split
    · rw [Emission.chars_andThen, begin_chars _ _ _ rfl]
      simp
    · rw [Emission.chars_andThen, begin_chars _ _ _ rfl]
      simp

theorem eq_import_of_opensImport {s : Control} {word : List Char} (h : s.opensImport word = true) :
    word = "import".toList := by
  simp only [opensImport, Bool.and_eq_true, beq_iff_eq] at h
  exact h.1.1.1.1.1

theorem stepWord_chars (markup : Bool) (s : Control) (done : List Char) (c : Char) :
    (s.stepWord markup done c).chars = s.gap.reverse ++ done.reverse ++ [c] := by
  unfold stepWord
  repeat' split
  · simp
  · simp
  · next h =>
    rw [stepImporting_chars, eq_import_of_opensImport h]
    simp
  · rw [Emission.chars_andThen, begin_chars _ _ _ rfl]
    simp [emitWord, Emission.update, emit]

theorem stepWordEscape_chars (s : Control) (done : List Char) (e : Escaping) (c : Char) :
    (s.stepWordEscape done e c).chars = s.gap.reverse ++ done.reverse ++ [c] := by
  unfold stepWordEscape
  split <;> simp

theorem stepNumber_chars (markup : Bool) (s : Control) (done : List Char) (c : Char) :
    (s.stepNumber markup done c).chars = s.gap.reverse ++ done.reverse ++ [c] := by
  unfold stepNumber
  simp only []
  repeat' split
  · simp
  · rw [Emission.chars_andThen, begin_chars _ _ _ rfl]
    simp [emit]
  · simp

theorem stepRegex_chars (s : Control) (done : List Char) (inClass escaped : Bool) (c : Char) :
    (s.stepRegex done inClass escaped c).chars = s.gap.reverse ++ done.reverse ++ [c] := by
  unfold stepRegex
  repeat' split
  all_goals simp

theorem sign_slash (s : Control) : s.sign '/' = s.emit .sign ['/'] true := by
  unfold sign
  split <;> simp_all [operandAfter]

theorem sign_dot (s : Control) : s.sign '.' = s.emit .sign ['.'] true := by
  unfold sign
  split <;> simp_all [operandAfter]

theorem stepSlash_chars (markup : Bool) (s : Control) (c : Char) :
    (s.stepSlash markup c).chars = s.gap.reverse ++ ['/', c] := by
  unfold stepSlash
  repeat' split
  · simp_all
  · simp_all
  · simp [stepRegex_chars]
  · rw [sign_slash, Emission.chars_andThen, begin_chars _ _ _ rfl]
    simp [emit]

theorem stepQuoted_chars (s : Control) (quote : Char) (done : List Char) (e : Escaping)
    (c : Char) :
    (s.stepQuoted quote done e c).chars = s.gap.reverse ++ done.reverse ++ [c] := by
  unfold stepQuoted
  repeat' split
  all_goals simp

/-- An escape sequence never turns into a lone dollar sign. -/
theorem next_ne_dollar {e e' : Escaping} {c : Char} (ho : e.isOpen = true)
    (hn : e.next c = some e') : e' ≠ .dollar := by
  rintro rfl
  cases e <;> simp [Escaping.isOpen, Escaping.next] at ho hn <;> grind

theorem stepChunk_dollar_chars (s : Control) (done : List Char) (c : Char) :
    (s.stepChunk done .dollar c).chars = s.gap.reverse ++ done.reverse ++ ['$', c] := by
  simp only [stepChunk, Escaping.isOpen, Escaping.takesAlong, beq_self_eq_true, if_true,
    Bool.and_true, beq_iff_eq, Bool.false_eq_true, if_false]
  repeat' split
  · simp_all
  · simp_all
  · simp_all
  · simp_all
  · simp
  · simp

/-- The characters of a template chunk with the dollar sign that may follow them. -/
theorem stepChunk_chars (s : Control) (done : List Char) (e : Escaping) (c : Char) :
    (s.stepChunk done e c).chars =
      s.gap.reverse ++ (Reading.chunk done e).chars ++ [c] := by
  by_cases he : e = .dollar
  · subst he
    rw [stepChunk_dollar_chars]
    simp
  · have hb : (e == Escaping.dollar) = false := by simp [he]
    simp only [stepChunk, Reading.chars_chunk, hb, Bool.and_false, Bool.false_eq_true, if_false]
    repeat' split
    · next ho _ e' hn => simp [next_ne_dollar ho hn]
    · simp
    · simp
    · simp_all
    · simp_all
    · simp
    · simp

theorem emitParameter_chars (s : Control) (before name : List Char) :
    charsOf (s.emitParameter before name).1 =
      s.gap.reverse ++ '<' :: (before.reverse ++ name.reverse) := by
  simp [emitParameter, Emission.andThen]

theorem emitTagName_chars (s : Control) (before name : List Char) :
    charsOf (s.emitTagName before name).1 =
      s.gap.reverse ++ '<' :: (before.reverse ++ name.reverse) := by
  simp [emitTagName, Emission.andThen]

theorem stepAngle_chars (s : Control) (before : List Char) (c : Char) :
    (s.stepAngle before c).chars = s.gap.reverse ++ '<' :: before.reverse ++ [c] := by
  unfold stepAngle
  repeat' split
  · simp
  · simp
  · rw [Emission.chars_andThen, beginTag_chars _ _ rfl]
    simp

theorem stepAngleName_chars (markup : Bool) (s : Control) (before name : List Char) (c : Char) :
    (s.stepAngleName markup before name c).chars =
      s.gap.reverse ++ '<' :: (before.reverse ++ name.reverse) ++ [c] := by
  unfold stepAngleName
  repeat' split
  · rw [Emission.chars_andThen, begin_chars _ _ _ rfl, emitParameter_chars]
    simp [emitParameter, Emission.andThen, emitWord, Emission.update, emit]
  · simp
  · simp
  · rw [Emission.chars_andThen, stepTagWord_chars]
    simp

theorem stepAngleSpace_chars (markup : Bool) (s : Control) (before name after : List Char)
    (c : Char) :
    (s.stepAngleSpace markup before name after c).chars =
      s.gap.reverse ++ '<' :: (before.reverse ++ name.reverse ++ after.reverse) ++ [c] := by
  unfold stepAngleSpace
  repeat' split
  · rw [Emission.chars_andThen, begin_chars _ _ _ rfl, emitParameter_chars]
    simp
  · simp
  · simp
  · rw [Emission.chars_andThen, beginTag_chars _ _ rfl, emitTagName_chars]
    simp

theorem stepAngleWord_chars (markup : Bool) (s : Control) (before name after second : List Char)
    (c : Char) :
    (s.stepAngleWord markup before name after second c).chars =
      s.gap.reverse ++ '<' :: (before.reverse ++ name.reverse ++ after.reverse ++ second.reverse) ++
        [c] := by
  unfold stepAngleWord
  repeat' split
  · simp
  · rw [Emission.chars_andThen, Emission.chars_andThen, begin_chars _ _ _ rfl, emitParameter_chars]
    simp [emitWord, Emission.update, emit]
  · rw [Emission.chars_andThen, stepTagWord_chars, emitTagName_chars]
    simp

/-- A step adds its character to the text, and loses none. -/
theorem step_chars (markup : Bool) (s : Control) (c : Char) :
    (s.step markup c).chars = s.pending ++ [c] := by
  unfold step pending
  split <;> rename_i h <;> rw [h]
  case h_1 => simp [begin_chars, h]
  case h_2 => simp [stepWord_chars]
  case h_3 => simp [stepWordEscape_chars]
  case h_4 => simp [stepImporting_chars]
  case h_5 =>
    split
    · simp
    · rw [sign_dot, Emission.chars_andThen, begin_chars _ _ _ rfl]
      simp [emit]
  case h_6 => simp [stepNumber_chars]
  case h_7 =>
    repeat' split
    all_goals simp
  case h_8 =>
    split
    · simp
    · rw [Emission.chars_andThen, begin_chars _ _ _ rfl]
      simp [emit]
  case h_9 =>
    split
    · rw [Emission.chars_andThen, begin_chars _ _ _ rfl]
      simp [emit]
    · simp
  case h_10 => simp [stepSlash_chars]
  case h_11 =>
    split
    · rw [Emission.chars_andThen, begin_chars _ _ _ rfl]
      simp [emitComment]
    · simp
  case h_12 =>
    split
    · simp
    · simp
  case h_13 => simp [stepRegex_chars]
  case h_14 =>
    split
    · simp
    · rw [Emission.chars_andThen, begin_chars _ _ _ rfl]
      simp [emit]
  case h_15 => simp [stepQuoted_chars]
  case h_16 => simp [stepChunk_chars]
  case h_17 => simp [stepAngle_chars]
  case h_18 => simp [stepAngleName_chars]
  case h_19 => simp [stepAngleSpace_chars]
  case h_20 => simp [stepAngleWord_chars]
  case h_21 => simp [stepTagWord_chars]
  case h_22 => simp [stepAttribute_chars]
  case h_23 => simp [stepContent_chars]
  case h_24 => simp [stepContentAngle_chars]
  case h_25 => simp

/-! ### Whole runs -/

theorem run_append (markup : Bool) (s : Control) (a b : List Char) :
    s.run markup (a ++ b) = (s.run markup a).andThen (·.run markup b) := by
  induction a generalizing s with
  | nil => simp [run, Emission.andThen]
  | cons c r ih => simp [run, Emission.andThen, ih]

theorem run_chars (markup : Bool) (s : Control) (text : List Char) :
    (s.run markup text).chars = s.pending ++ text := by
  induction text generalizing s with
  | nil => simp [run]
  | cons c r ih =>
      have hc := step_chars markup s c
      rw [run, Emission.chars_andThen, ih, ← List.append_assoc]
      change (s.step markup c).chars ++ r = _
      rw [hc, List.append_assoc]
      rfl

theorem emit_gap (s : Control) (kind : TokenKind) (text : List Char) (operand : Bool) :
    (s.emit kind text operand).2.gap = [] := rfl

/-- The tokens at the end of a text take up all that is pending. -/
theorem flush_chars (s : Control) :
    charsOf s.flush.1 ++ s.flush.2.gap.reverse = s.pending := by
  unfold flush pending
  split <;> rename_i h <;> rw [h]
  case h_1 => simp
  case h_2 =>
    split
    · next hopens => simp [eq_import_of_opensImport hopens]
    · simp [emitWord, Emission.update, emit]
  case h_4 => simp [Emission.update]
  case h_5 => simp [sign_dot, emit_gap]
  case h_6 => split <;> simp [emit_gap]
  case h_10 => simp [sign_slash, emit_gap]
  case h_11 => simp [emitComment]
  case h_16 => split <;> simp_all [emit_gap]
  case h_17 => simp [Emission.update]
  case h_18 =>
    rw [emitTagName_chars]
    simp [emitTagName, Emission.andThen, emit_gap]
  case h_19 =>
    simp only [Emission.update]
    rw [emitTagName_chars]
    simp
  case h_20 =>
    simp only [Emission.andThen, charsOf_append]
    rw [emitTagName_chars]
    simp [emit_gap]
  case h_23 => simpa using emitText_chars s .text _ []
  case h_24 =>
    rw [openTag_fst_chars]
    simp [openTag, resting]
  all_goals simp [emit_gap]

theorem finish_chars (s : Control) : charsOf s.finish = s.pending := by
  rw [← flush_chars s]
  simp [finish]

end Control

/-- The tokens of a text make up the text. -/
theorem tokens_chars (markup : Bool) (text : List Char) : charsOf (tokens markup text) = text := by
  have h := Control.run_chars markup .start text
  rw [Emission.chars, ← Control.finish_chars] at h
  rw [tokens, charsOf_append, h]
  rfl

end Phrasebook.Source

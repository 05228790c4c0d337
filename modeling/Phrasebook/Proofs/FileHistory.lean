import Phrasebook.Proofs.FileStore
import Phrasebook.Proofs.Utf8

/-!
Sequences of reads and writes. Directories stay where they are, so a path leads to the same place
from first to last. A write that succeeds changes what that place holds, and nothing else does; so
at every time a place holds the text last written to it, or what it held at the start.
-/

namespace Phrasebook.Store

open Text

/-! ### One step -/

def Answer.isFault : Answer → Bool
  | .unread _ | .unwritten _ => true
  | .text _ | .written => false

theorem step_read (s : Store) (p : Path) :
    (s.step (.read p)).2 = s ∧
      ∀ cs, (s.step (.read p)).1 = .text cs ↔ s.readText p = .ok cs := by
  cases h : s.readText p <;> simp [step, h]

/-- A write fails and changes nothing, or it fills the place that its path leads to. -/
theorem step_write (s : Store) (p : Path) (text : Points) :
    (∃ f, s.step (.write p text) = (.unwritten f, s)) ∨
      ∃ cs place after, s.step (.write p text) = (.written, after) ∧ text = .ofChars cs ∧
        s.follow [] p.parts = .ok place ∧ (s.contentAt place = none → leavesRoom p = true) ∧
        Fills s place (Utf8.encode cs) after := by
  rw [step, write, writeVia_eq]
  cases h : s.replaced p text with
  | error f => exact Or.inl ⟨f, rfl⟩
  | ok after =>
      obtain ⟨cs, place, hchars, hleads, hroom, hfills⟩ := fills_of_replaced h
      refine Or.inr ⟨cs, place, after, rfl, Points.toChars?_eq_some.1 hchars, hleads, ?_, hfills⟩
      rwa [contentAt, Option.map_eq_none_iff]

/-- A write succeeds exactly if its text has bytes and its path leads to a place with no directory,
and leaves room if the place is new. -/
theorem step_write_eq_written {s : Store} {p : Path} {text : Points} :
    (s.step (.write p text)).1 = .written ↔ ∃ cs place, text = .ofChars cs ∧
      s.follow [] p.parts = .ok place ∧ s.contentAt place ≠ some none ∧
      (s.contentAt place = none → leavesRoom p = true) := by
  constructor
  · intro hwritten
    rcases s.step_write p text with ⟨f, hstep⟩ | ⟨cs, place, after, -, htext, hleads, hroom, hfills⟩
    · rw [hstep] at hwritten
      cases hwritten
    · refine ⟨cs, place, htext, hleads, fun hdirectory => ?_, hroom⟩
      obtain ⟨ds, hds⟩ := contentAt_eq_directory.1 hdirectory
      exact hfills.free ds hds
  · rintro ⟨cs, place, rfl, hleads, hfree, hroom⟩
    rw [contentAt, Option.map_eq_none_iff] at hroom
    obtain ⟨after, hafter⟩ := exists_replaced hleads
      (fun ds hds => hfree (contentAt_eq_directory.2 ⟨ds, hds⟩)) hroom cs
    rw [step, write, writeVia_eq, hafter]

/-- The text that a step gives to a place: that of a write which succeeds and whose path leads
there. -/
def given? (s : Store) (place : List String) : Step → Option (List Char)
  | .read _ => none
  | .write p text =>
      if (s.step (.write p text)).1 = .written ∧ s.follow [] p.parts = .ok place then text.toChars?
      else none

theorem follow_step (s : Store) (step : Step) {path place : List String} :
    (s.step step).2.follow [] path = .ok place ↔ s.follow [] path = .ok place := by
  cases step with
  | read p => rw [(s.step_read p).1]
  | write p text =>
      rcases s.step_write p text with ⟨f, hstep⟩ | ⟨cs, found, after, hstep, -, -, -, hfills⟩
      · rw [hstep]
      · rw [hstep]
        exact hfills.follow.symm

theorem contentAt_step (s : Store) (step : Step) (place : List String) :
    (s.step step).2.contentAt place =
      match s.given? place step with
      | some cs => some (some (.file (Utf8.encode cs)))
      | none => s.contentAt place := by
  cases step with
  | read p => rw [(s.step_read p).1, given?]
  | write p text =>
      rcases s.step_write p text with
        ⟨f, hstep⟩ | ⟨cs, found, after, hstep, htext, hleads, -, hfills⟩
      · rw [given?, hstep, if_neg (by simp)]
      · by_cases hplace : found = place
        · subst hplace
          rw [given?, hstep, if_pos ⟨rfl, hleads⟩, htext, Points.toChars?_ofChars, contentAt,
            hfills.filled]
          rfl
        · -- the write filled another place
          have hother : ¬ s.follow [] p.parts = .ok place := by
            rw [hleads, Except.ok.injEq]
            exact hplace
          rw [given?, hstep, if_neg fun h => hother h.2]
          exact hfills.others place (Ne.symm hplace)

/-! ### Many steps -/

def run (s : Store) (steps : List Step) : Store := steps.foldl (fun s step => (s.step step).2) s

def latest? (s : Store) (place : List String) : List Step → Option (List Char)
  | [] => none
  | step :: rest => ((s.step step).2.latest? place rest).or (s.given? place step)

theorem follow_run (s : Store) (steps : List Step) {path place : List String} :
    (s.run steps).follow [] path = .ok place ↔ s.follow [] path = .ok place := by
  induction steps generalizing s with
  | nil => exact Iff.rfl
  | cons step rest ih => exact (ih (s.step step).2).trans (s.follow_step step)

theorem contentAt_run (s : Store) (steps : List Step) (place : List String) :
    (s.run steps).contentAt place =
      match s.latest? place steps with
      | some cs => some (some (.file (Utf8.encode cs)))
      | none => s.contentAt place := by
  induction steps generalizing s with
  | nil => rfl
  | cons step rest ih =>
      rw [show s.run (step :: rest) = (s.step step).2.run rest from rfl, ih, latest?]
      -- what a later step gave to the place hides what this one did to it
      cases (s.step step).2.latest? place rest with
      | some cs => rfl
      | none => exact s.contentAt_step step place

/-- A text is read from a file that holds its bytes. -/
theorem readText_eq_ok {s : Store} {p : Path} {cs : List Char} :
    s.readText p = .ok cs ↔ ∃ place, s.follow [] p.parts = .ok place ∧
      s.contentAt place = some (some (.file (Utf8.encode cs))) := by
  constructor
  · intro h
    rw [readText] at h
    split at h
    · cases h
    · next bytes hread =>
      obtain ⟨place, hleads, hentry⟩ := file_of_read hread
      rw [mapError_eq_ok, Utf8.decode_eq_ok] at h
      rw [h] at hentry
      exact ⟨place, hleads, contentAt_eq_file.2 hentry⟩
  · rintro ⟨place, hleads, hcontent⟩
    have hread := read_of_follow hleads (contentAt_eq_file.1 hcontent)
    rw [readText, hread]
    exact mapError_eq_ok.2 (Utf8.decode_encode cs)

/-- After any steps, one that fails changes nothing at all. A write succeeds exactly if its text has
bytes and its path leads to a place with no directory, and the place holds a file or link already or
the path leaves room for a temporary file; it changes what is there and nothing else. A read gives
the text that was last written to the place or, if none was, the text whose bytes were there at the
start. What the temporary files are called does not matter. -/
theorem step_after_run (start : Store) (steps : List Step) :
    let s := start.run steps
    (∀ step, (s.step step).1.isFault = true → (s.step step).2 = s) ∧
      (∀ p text, (s.step (.write p text)).1 = .written ↔ ∃ cs place, text = .ofChars cs ∧
        start.follow [] p.parts = .ok place ∧ s.contentAt place ≠ some none ∧
        (s.contentAt place = none → leavesRoom p = true)) ∧
      (∀ p cs place, (s.step (.write p (.ofChars cs))).1 = .written →
        start.follow [] p.parts = .ok place →
          let after := (s.step (.write p (.ofChars cs))).2
          after.contentAt place = some (some (.file (Utf8.encode cs))) ∧
            ∀ other, other ≠ place → after.contentAt other = s.contentAt other) ∧
      (∀ p, (s.step (.read p)).2 = s) ∧
      (∀ p cs, (s.step (.read p)).1 = .text cs ↔
        ∃ place, start.follow [] p.parts = .ok place ∧
          match start.latest? place steps with
          | some written => cs = written
          | none => start.contentAt place = some (some (.file (Utf8.encode cs)))) ∧
      ∀ scratch p text, s.writeVia scratch p text = s.write p text := by
  intro s
  refine ⟨?_, ?_, ?_, fun p => (s.step_read p).1, ?_, ?_⟩
  · intro step hfault
    cases step with
    | read p => exact (s.step_read p).1
    | write p text =>
        rcases s.step_write p text with ⟨f, hstep⟩ | ⟨cs, place, after, hstep, -⟩
        · rw [hstep]
        · rw [hstep] at hfault
          cases hfault
  · intro p text
    simp only [step_write_eq_written, s, follow_run]
  · intro p cs place hwritten hplace
    rcases s.step_write p (.ofChars cs) with
      ⟨f, hstep⟩ | ⟨ds, found, after, hstep, htext, hleads, -, hfills⟩
    · rw [hstep] at hwritten
      cases hwritten
    · obtain rfl := Points.ofChars_injective htext
      rw [(start.follow_run steps).1 hleads, Except.ok.injEq] at hplace
      subst hplace
      rw [hstep]
      exact ⟨contentAt_eq_file.2 hfills.filled, hfills.others⟩
  · intro p cs
    rw [(s.step_read p).2, readText_eq_ok]
    refine exists_congr fun place => and_congr (start.follow_run steps) ?_
    rw [contentAt_run]
    cases start.latest? place steps with
    | none => exact Iff.rfl
    | some written =>
        -- texts with the same bytes are the same
        simp only [Option.some.injEq, Content.file.injEq]
        exact ⟨fun h => (Utf8.encode_injective h).symm, fun h => by rw [h]⟩
  · intro scratch p text
    rw [write, writeVia_eq, writeVia_eq]

/-- A file is written around a directory; then the directory itself is written to, and the file with
a text that has no bytes. Line ends are kept. -/
theorem step_after_run_around :
    let start : Store := ⟨[("a", .leaf (.file (Utf8.encode "x\r\n".toList))), ("d", .branch [])]⟩
    let a : Path := ⟨"/", ["a"]⟩
    let d : Path := ⟨"/", ["d"]⟩
    let steps : List Step := [.write ⟨"/", ["d", "..", "a"]⟩ (.ofString "y\r\n"),
      .write d (.ofString "z"), .write a [0xd800]]
    ((start.run []).step (.read a)).1 = .text "x\r\n".toList ∧
      ((start.run steps).step (.read a)).1 = .text "y\r\n".toList ∧
      ((start.run steps).step (.write d [])).2 = start.run steps := by
  intro start a d steps
  have hnone : start.latest? ["a"] [] = none := rfl
  have hlatest : start.latest? ["a"] steps = some "y\r\n".toList := by decide +kernel
  refine ⟨?_, ?_, ?_⟩
  · refine ((step_after_run start []).2.2.2.2.1 a _).2 ⟨["a"], by decide +kernel, ?_⟩
    rw [hnone]
    rfl
  · refine ((step_after_run start steps).2.2.2.2.1 a _).2 ⟨["a"], by decide +kernel, ?_⟩
    rw [hlatest]
  · exact (step_after_run start steps).1 (.write d []) (by decide +kernel)

end Phrasebook.Store

import Dossier.History.Collection
import Dossier.Proofs.Outline.Framed
import Dossier.Proofs.Text.Utf8
import Dossier.VersionControl.Git

/-!
# The lines a history is asked for

The history of a function is that of its lines in the text that git shows of its file. What git
writes is shown without the blanks at its ends, and a text without them is outlined like the
committed one, only that its lines are counted from the first one that says something
(`Dossier.History.exists_asked`). So the lines are those of the function in the committed text
exactly if no line ends in the blanks before it (`Dossier.History.asked_own_lines_iff`).
-/

namespace Dossier.History

variable {file function text : String} {language : Language} {o : Outline} {d : Definition}
  {lead core trail : List Char}

/-- What is shown of a committed text. -/
theorem outcome_showFile (revision : String) (complaint : List UInt8) (text : String) :
    Git.outcome (.showFile revision file) ⟨true, Text.encode text, complaint⟩ =
      .ok (some (Text.trim text)) := by
  rw [Git.outcome, if_pos rfl, Git.written, Text.decode_encode]
  rfl

theorem rangeIn_of_found (hlanguage : Language.ofPath? file = some language)
    (hparse : Outline.ofSource language file text = .ok o) (hfound : o.locate function = .found d) :
    rangeIn file function (some text) = .lines d.span.startLine d.span.stopLine := by
  simp only [rangeIn, hlanguage, hparse, hfound]

theorem trim_of_framed (h : Outline.Framed language lead core trail)
    (htext : text.toList = lead ++ core ++ trail) : Text.trim text = String.ofList core := by
  rw [Text.trim, htext, Text.trimChars_between _ h.head h.closed.notBlank]
  · exact fun c hc => Lexicon.isBlank_of_isPlain (h.closed.plain c hc)
  · exact fun c hc => Lexicon.isBlank_of_isPlain (h.plain c hc)

/-- **The lines that are asked for** are those of the function, less the lines that are lost before
it. -/
theorem exists_asked (revision : String) (complaint : List UInt8)
    (h : Outline.Framed language lead core trail) (htext : text.toList = lead ++ core ++ trail)
    (hlanguage : Language.ofPath? file = some language)
    (hparse : Outline.ofSource language file text = .ok o) (hfound : o.locate function = .found d) :
    ∃ first last,
      (Git.outcome (.showFile revision file) ⟨true, Text.encode text, complaint⟩).map
        (rangeIn file function) = .ok (.lines first last) ∧
      d.span.startLine = lead.count '\n' + first ∧ d.span.stopLine = lead.count '\n' + last := by
  obtain ⟨o', ho', rfl⟩ := h.exists_ofText htext (Outline.ofSource_eq_ok_iff.mp hparse)
  have hlines : (Position.origin.advance lead).row = lead.count '\n' := by
    rw [Position.row_advance]
    exact Nat.zero_add _
  rw [Outline.locate_behind] at hfound
  rcases hcore : o'.locate function with d' | ds | _ <;> rw [hcore] at hfound
  · obtain rfl := Lookup.found.inj hfound
    refine ⟨d'.span.startLine, d'.span.stopLine, ?_, hlines ▸ rfl, hlines ▸ rfl⟩
    rw [outcome_showFile, trim_of_framed h htext, Except.map,
      rangeIn_of_found hlanguage (Outline.ofSource_eq_ok_iff.mpr ho') hcore]
  · cases hfound
  · cases hfound

/-- **The lines of a function in a committed text are asked for** exactly if none of the blanks
before the program is the end of a line. -/
theorem asked_own_lines_iff (revision : String) (complaint : List UInt8)
    (h : Outline.Framed language lead core trail) (htext : text.toList = lead ++ core ++ trail)
    (hlanguage : Language.ofPath? file = some language)
    (hparse : Outline.ofSource language file text = .ok o) (hfound : o.locate function = .found d) :
    (Git.outcome (.showFile revision file) ⟨true, Text.encode text, complaint⟩).map
        (rangeIn file function) = .ok (.lines d.span.startLine d.span.stopLine) ↔
      '\n' ∉ lead := by
  obtain ⟨first, last, hasked, hfirst, hlast⟩ :=
    exists_asked revision complaint h htext hlanguage hparse hfound
  have hlines : (lead.count '\n' = 0) ↔ '\n' ∉ lead := List.count_eq_zero
  rw [hasked, hfirst, hlast, ← hlines, Except.ok.injEq, LineRange.lines.injEq]
  omega

/-- A program of one function. -/
def program : String :=
  "def f(): return 1"

/-- The function of the program. -/
def alone : Definition where
  name := "f"
  simpleName := "f"
  signature := "def f():"
  parameters := 0
  decisions := 0
  codeLines := 1
  span := ⟨0, 17, 1, 1, 0⟩

/-- The program on a line of its own. -/
theorem framed_program : Outline.Framed .python [] program.toList ['\n'] := by
  have hhead : program.toList.head? = some 'd' := by decide +kernel
  have hlast : program.toList.getLast? = some '1' := by decide +kernel
  refine ⟨fun _ hc => absurd hc List.not_mem_nil, ?_, fun hne => absurd rfl hne, ?_⟩
  · rw [hhead]
    rintro c ⟨⟩
    decide
  · refine ⟨fun c hc => List.mem_singleton.mp hc ▸ rfl, ?_, ?_, ?_⟩
    · rw [hlast]
      rintro c ⟨⟩
      decide
    · rw [hlast]
      rintro - c ⟨⟩
      decide
    · exact fun _ _ _ _ _ _ b hb => (Option.mem_some.mp hb).symm

theorem asked_own_lines_iff_alone :
    Outline.ofSource .python "a.py" "def f(): return 1\n" = .ok ⟨.python, [alone], []⟩ ∧
    (Git.outcome (.showFile "HEAD" "a.py") ⟨true, Text.encode "def f(): return 1\n", []⟩).map
      (rangeIn "a.py" "f") = .ok (.lines 1 1) := by
  have hparse : Outline.ofSource .python "a.py" "def f(): return 1\n" =
      .ok ⟨.python, [alone], []⟩ := by decide +kernel
  have hlocate : (⟨.python, [alone], []⟩ : Outline).locate "f" = .found alone := by decide +kernel
  exact ⟨hparse, (asked_own_lines_iff "HEAD" [] framed_program (by decide +kernel)
    (by decide +kernel) hparse hlocate).mpr List.not_mem_nil⟩

/-- A text with blank lines before its function. -/
def afterBlankLines : String :=
  "\n\ndef f():\n    return 1\n"

/-- The function of the text. -/
def belowBlankLines : Definition where
  name := "f"
  simpleName := "f"
  signature := "def f():"
  parameters := 0
  decisions := 0
  codeLines := 1
  span := ⟨2, 23, 3, 4, 0⟩

/-- **Lines that are not those of the function**: the blank lines at the beginning of the committed
text are not counted. -/
theorem asked_above :
    (Outline.ofSource .python "a.py" afterBlankLines).map (Outline.locate · "f") =
      .ok (.found belowBlankLines) ∧
    (Git.outcome (.showFile "HEAD" "a.py") ⟨true, Text.encode afterBlankLines, []⟩).map
      (rangeIn "a.py" "f") = .ok (.lines 1 2) := by
  constructor <;> decide +kernel

end Dossier.History

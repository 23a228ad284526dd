import Stencil.Browser
import Stencil.Text.Search

/-!
# Texts Stay Within Their Literals

Whatever text is put into an automation script, reading its literal gives that text back and stops at the
quote that the script itself has put there.  So a response cannot reach the script that acts on it, and
code for a page cannot reach the command that runs it.

The backslashes that are there come first: a text is escaped by replacing every backslash, and every quote
only then.

Main statements: `readLiteral_escape`, `escape_eq_replaceAll` and `texts_within_literals`.
-/

namespace Stencil.Automation

open Text Browser

/-! ## §1 Escaping -/

@[simp] theorem escape_nil : escape [] = [] := rfl

theorem escape_cons_of_mark {c : Char} (h : c = '\\' ∨ c = '"') (cs : List Char) :
    escape (c :: cs) = '\\' :: c :: escape cs := by
  rw [escape, List.flatMap_cons, if_pos (by simpa using h)]
  rfl

theorem escape_cons_of_not_mark {c : Char} (h : ¬(c = '\\' ∨ c = '"')) (cs : List Char) :
    escape (c :: cs) = c :: escape cs := by
  rw [escape, List.flatMap_cons, if_neg (by simpa using h)]
  rfl

theorem replaceAll_cons (old : Char) (new : List Char) (c : Char) (cs : List Char) :
    replaceAll [old] new (c :: cs) = (if c = old then new else [c]) ++ replaceAll [old] new cs := by
  rw [replaceAll]
  by_cases h : c = old
  · subst h
    simp
  · have h' : old ≠ c := fun heq => h heq.symm
    simp [h, h']

theorem replaceAll_nil (old new : List Char) : replaceAll old new [] = [] := by
  rw [replaceAll]

/-- Escaping replaces the backslashes first and the quotes after them, so that the backslashes put before
quotes are not escaped again. -/
theorem escape_eq_replaceAll (cs : List Char) :
    escape cs = replaceAll ['"'] ['\\', '"'] (replaceAll ['\\'] ['\\', '\\'] cs) := by
  induction cs with
  | nil => simp only [replaceAll_nil, escape_nil]
  | cons c cs ih =>
    rw [replaceAll_cons]
    by_cases hmark : c = '\\' ∨ c = '"'
    · rw [escape_cons_of_mark hmark, ih]
      rcases hmark with rfl | rfl
      · simp [replaceAll_cons]
      · simp [replaceAll_cons]
    · rw [escape_cons_of_not_mark hmark, ih]
      rw [not_or] at hmark
      simp [replaceAll_cons, hmark]

/-! ## §2 Reading -/

theorem readLiteral_cons_of_not_mark {c : Char} (h : ¬(c = '\\' ∨ c = '"')) (cs : List Char) :
    readLiteral (c :: cs) = (readLiteral cs).map fun (text, after) => (c :: text, after) := by
  rw [not_or] at h
  rw [readLiteral]
  · exact h.2
  · rintro c' rest rfl
    exact absurd rfl h.1
  · rintro rfl
    exact absurd rfl h.1

/-- **An escaped text is read back**, and nothing of what follows its literal. -/
theorem readLiteral_escape (text rest : List Char) :
    readLiteral (escape text ++ '"' :: rest) = some (text, rest) := by
  induction text with
  | nil => rfl
  | cons c text ih =>
    by_cases hmark : c = '\\' ∨ c = '"'
    · rw [escape_cons_of_mark hmark, List.cons_append, List.cons_append, readLiteral, ih]
      rfl
    · rw [escape_cons_of_not_mark hmark, List.cons_append, readLiteral_cons_of_not_mark hmark, ih]
      rfl

/-- Reads the first literal of a script: its text, and what follows the closing quote. -/
def firstLiteral? (script : List Char) : Option (List Char × List Char) :=
  readLiteral ((script.dropWhile (· ≠ '"')).drop 1)

/-- The first literal starts behind the first quote. -/
theorem firstLiteral?_append {before : List Char} (h : '"' ∉ before) (rest : List Char) :
    firstLiteral? (before ++ '"' :: rest) = readLiteral rest := by
  have hbefore : ∀ c ∈ before, (decide (c ≠ '"')) = true := by
    intro c hc
    have hne : c ≠ '"' := fun heq => h (heq ▸ hc)
    simpa using hne
  rw [firstLiteral?, List.dropWhile_append_of_pos hbefore]
  rfl

/-! ## §3 Scripts -/

theorem toList_prepare (script response : String) :
    (prepare script response).toList = "set response to \"".toList ++
      (escape response.toList ++ '"' :: '\n' :: script.toList) := by
  unfold prepare
  simp [escapeText]

/-- The fixed start of a command ends with the only quote in it. -/
theorem exists_beforeCode (f : Family) :
    ∃ before, f.beforeCode.toList = before ++ ['"'] ∧ '"' ∉ before := by
  unfold Family.beforeCode
  cases f with
  | safari => exact ⟨"do JavaScript ".toList, by simp, by simp⟩
  | chromium => exact ⟨"execute active tab of front window javascript ".toList, by simp, by simp⟩

/-- The command that runs code in a page of a browser. -/
theorem exists_codeScript {app : String} {f : Family} (h : family? app = some f) (code : String) :
    ∃ command, codeScript? app code = some command ∧
      command.toList = (Browser.tell app ++ f.beforeCode).toList ++
        (escape code.toList ++ '"' :: f.afterCode.toList) := by
  refine ⟨Browser.tell app ++ f.beforeCode ++ escapeText code ++ "\"" ++ f.afterCode, ?_, ?_⟩
  · unfold codeScript?
    rw [h]
    rfl
  · simp [escapeText]

/-- The start of a command has the name of the application in a literal of its own. -/
theorem toList_tell (app : String) :
    (Browser.tell app).toList = "tell application ".toList ++
      '"' :: (escape app.toList ++ '"' :: " to ".toList) := by
  unfold Browser.tell
  simp [escapeText]

/-- **Texts stay within their literals.**  Whatever the script and the response, the literal behind
`set response to "` reads as the response, and a line break and the script are left.  Whatever the browser
and the code, the command that runs it has two literals: the first reads as the name of the browser, the
second, behind the fixed start of the command, as the code, and the fixed end of the command is left. -/
theorem texts_within_literals :
    (∀ script response, ∃ rest,
      (prepare script response).toList = "set response to \"".toList ++ rest ∧
      readLiteral rest = some (response.toList, '\n' :: script.toList)) ∧
    ∀ app f code, family? app = some f → ∃ command between rest,
      codeScript? app code = some command ∧
      firstLiteral? command.toList = some (app.toList, between) ∧
      firstLiteral? between = some (code.toList, f.afterCode.toList) ∧
      command.toList = (Browser.tell app ++ f.beforeCode).toList ++ rest ∧
      readLiteral rest = some (code.toList, f.afterCode.toList) := by
  constructor
  · intro script response
    exact ⟨_, toList_prepare script response, readLiteral_escape _ _⟩
  · intro app f code hf
    obtain ⟨command, hcommand, hchars⟩ := exists_codeScript hf code
    obtain ⟨before, hbefore, hquote⟩ := exists_beforeCode f
    have hcode := readLiteral_escape code.toList f.afterCode.toList
    refine ⟨command, " to ".toList ++ before ++ '"' :: (escape code.toList ++ '"' :: f.afterCode.toList),
      _, hcommand, ?_, ?_, hchars, hcode⟩
    · have hfirst : command.toList = "tell application ".toList ++
          '"' :: (escape app.toList ++ '"' :: (" to ".toList ++ before ++
            '"' :: (escape code.toList ++ '"' :: f.afterCode.toList))) := by
        simp [hchars, hbefore, toList_tell]
      rw [hfirst, firstLiteral?_append (by simp)]
      exact readLiteral_escape _ _
    · -- Between the two literals no quote comes before the one that opens the code.
      rw [firstLiteral?_append (by simp [hquote])]
      exact hcode

/-- A response that ends in backslashes, and code with a quote behind a backslash. -/
theorem texts_within_literals_marks :
    (∃ rest, (prepare "return 1" "a\"\\\\").toList = "set response to \"".toList ++ rest ∧
      readLiteral rest = some ("a\"\\\\".toList, '\n' :: "return 1".toList)) ∧
    family? "Arc" = some .chromium ∧ ∃ command between rest,
      codeScript? "Arc" "\\\"" = some command ∧
      firstLiteral? command.toList = some ("Arc".toList, between) ∧
      firstLiteral? between = some ("\\\"".toList, []) ∧
      command.toList = (Browser.tell "Arc" ++ Family.chromium.beforeCode).toList ++ rest ∧
      readLiteral rest = some ("\\\"".toList, []) :=
  have hfamily : family? "Arc" = some .chromium := by decide
  ⟨texts_within_literals.1 _ _, hfamily, texts_within_literals.2 _ _ _ hfamily⟩

end Stencil.Automation

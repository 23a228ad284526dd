import Stencil.Context
import Stencil.Proofs.Text.Parts

/-!
# Lists of Paths

A list of paths is written as one text and read from it again.  What is read has no commas, no line
breaks and no blanks at its ends, and no path is empty; exactly the lists of such paths are read back as
they are written.  So writing what was read gives a normal form.

Main statement: `paths_normal_form`.
-/

namespace Stencil.Context

open Text

/-- Whether a character ends a path. -/
def endsPath (c : Char) : Bool := c == ',' || c == '\n'

/-- Whether a text is a path as it is read: it is not empty, no blank is at either end, and nothing in it
ends a path. -/
structure IsPath (path : String) : Prop where
  /-- It is not empty. -/
  ne_nil : path.toList ≠ []
  /-- No blank is at either end. -/
  trimmed : trimChars path.toList = path.toList
  /-- Nothing in it ends a path. -/
  not_ends : ∀ c ∈ path.toList, endsPath c = false

/-- What a text must be to be a path, character by character. -/
theorem isPath_iff {path : String} : IsPath path ↔ path ≠ "" ∧
    (∀ c ∈ path.toList.head?, isBlank c = false) ∧ (∀ c ∈ path.toList.getLast?, isBlank c = false) ∧
    ',' ∉ path.toList ∧ '\n' ∉ path.toList := by
  have hempty : path ≠ "" ↔ path.toList ≠ [] := not_congr String.toList_eq_nil_iff.symm
  -- Commas and line breaks are the characters that end a path.
  have hends : (∀ c ∈ path.toList, endsPath c = false) ↔
      ',' ∉ path.toList ∧ '\n' ∉ path.toList := by
    simp only [endsPath, Bool.or_eq_false_iff, beq_eq_false_iff_ne]
    constructor
    · intro h
      exact ⟨fun hcomma => (h _ hcomma).1 rfl, fun hbreak => (h _ hbreak).2 rfl⟩
    · rintro ⟨hcomma, hbreak⟩ c hc
      exact ⟨fun heq => hcomma (heq ▸ hc), fun heq => hbreak (heq ▸ hc)⟩
  constructor
  · rintro ⟨hne, htrim, hnot⟩
    obtain ⟨hhead, hlast⟩ := trimChars_eq_self_iff.1 htrim
    exact ⟨hempty.2 hne, hhead, hlast, hends.1 hnot⟩
  · rintro ⟨hne, hhead, hlast, hnot⟩
    exact ⟨hempty.1 hne, trimChars_eq_self_iff.2 ⟨hhead, hlast⟩, hends.2 hnot⟩

/-- Reading cuts a text where paths end, and leaves out what is empty without the blanks. -/
theorem splitPaths_eq (raw : String) : splitPaths raw =
    (((splitWhere endsPath raw.toList).map trimChars).filter (!·.isEmpty)).map String.ofList :=
  rfl

theorem isPath_of_mem_splitPaths {raw path : String} (h : path ∈ splitPaths raw) : IsPath path := by
  rw [splitPaths_eq] at h
  obtain ⟨cs, hcs, rfl⟩ := List.mem_map.1 h
  obtain ⟨hcs, hne⟩ := List.mem_filter.1 hcs
  obtain ⟨part, hpart, rfl⟩ := List.mem_map.1 hcs
  refine ⟨?_, ?_, ?_⟩
  · simpa using hne
  · rw [String.toList_ofList, trimChars_trimChars]
  · intro c hc
    rw [String.toList_ofList] at hc
    exact not_cut_of_mem_splitWhere hpart c (trimChars_subset part hc)

/-- The paths of a text begin with what stands before its first comma. -/
theorem splitPaths_append {path raw : String} (h : IsPath path) :
    splitPaths (path ++ ", " ++ raw) = path :: splitPaths raw := by
  have htext : (path ++ ", " ++ raw).toList = path.toList ++ ',' :: ' ' :: raw.toList := by
    simp [String.toList_append]
  obtain ⟨part, parts, hparts⟩ := exists_splitWhere endsPath raw.toList
  have hcut : splitWhere endsPath (path ++ ", " ++ raw).toList =
      path.toList :: (' ' :: part) :: parts := by
    rw [htext, splitWhere_append_cons h.not_ends (by decide),
      splitWhere_cons_of_neg (by decide) hparts]
  rw [splitPaths_eq, splitPaths_eq, hcut, hparts, List.map_cons, List.map_cons, List.map_cons,
    h.trimmed, trimChars_cons_of_isBlank (by decide),
    List.filter_cons_of_pos (by simpa using h.ne_nil), List.map_cons, String.ofList_toList]

theorem splitPaths_of_isPath {path : String} (h : IsPath path) : splitPaths path = [path] := by
  rw [splitPaths_eq, splitWhere_of_forall h.not_ends, List.map_singleton, h.trimmed,
    List.filter_cons_of_pos (by simpa using h.ne_nil), List.filter_nil, List.map_singleton,
    String.ofList_toList]

theorem splitPaths_joinPaths {paths : List String} (h : ∀ path ∈ paths, IsPath path) :
    splitPaths (joinPaths paths) = paths := by
  induction paths with
  | nil => rfl
  | cons path paths ih =>
    have hpath := h path List.mem_cons_self
    cases paths with
    | nil => exact splitPaths_of_isPath hpath
    | cons path' paths =>
      rw [joinPaths, String.intercalate_cons_cons, splitPaths_append hpath]
      exact congrArg _ (ih fun q hq => h q (List.mem_cons_of_mem _ hq))

/-- Writing what was read gives a normal form. -/
theorem splitPaths_joinPaths_splitPaths (raw : String) :
    splitPaths (joinPaths (splitPaths raw)) = splitPaths raw :=
  splitPaths_joinPaths fun _ => isPath_of_mem_splitPaths

/-- No other lists are read back as they are written, since nothing but paths is read. -/
theorem splitPaths_joinPaths_iff {paths : List String} :
    splitPaths (joinPaths paths) = paths ↔ ∀ path ∈ paths, IsPath path := by
  constructor
  · intro h path hpath
    rw [← h] at hpath
    exact isPath_of_mem_splitPaths hpath
  · exact splitPaths_joinPaths

/-- A context seeded with a text for the selected files. -/
def withFiles (ctx : Context) (raw : String) : Context := ctx.insert selectedFilesKey (.text raw)

/-- The selected files are then those of the text. -/
@[simp] theorem selectedFiles_withFiles (ctx : Context) (raw : String) :
    (ctx.withFiles raw).selectedFiles = splitPaths raw := by
  simp [selectedFiles, withFiles, text?, valueText]

/-- Whatever a context knows of the selected files, it still does when that is put in normal form. -/
theorem selectedFiles_normalized (ctx : Context) :
    (ctx.withFiles (joinPaths ctx.selectedFiles)).selectedFiles = ctx.selectedFiles := by
  rw [selectedFiles_withFiles]
  cases hraw : ctx.text? selectedFilesKey with
  | some raw =>
    have hfiles : ctx.selectedFiles = splitPaths raw := by rw [selectedFiles, hraw]
    rw [hfiles, splitPaths_joinPaths_splitPaths]
  | none =>
    have hfiles : ctx.selectedFiles = [] := by rw [selectedFiles, hraw]
    rw [hfiles]
    rfl

/-- **Lists of paths have a normal form.**  The paths read from a text, written and read again, are the
same.  A list is read back as it is written exactly if none of its paths is empty, has a blank at either
end, or holds a comma or a line break.  So putting the selected files that a context was seeded with in
normal form leaves them as they are, whether the seed was a text or another value. -/
theorem paths_normal_form :
    (∀ raw, splitPaths (joinPaths (splitPaths raw)) = splitPaths raw) ∧
    (∀ paths : List String, splitPaths (joinPaths paths) = paths ↔ ∀ path ∈ paths, path ≠ "" ∧
      (∀ c ∈ path.toList.head?, isBlank c = false) ∧
      (∀ c ∈ path.toList.getLast?, isBlank c = false) ∧ ',' ∉ path.toList ∧ '\n' ∉ path.toList) ∧
    (∀ (ctx : Context) raw, (ctx.withFiles (joinPaths (splitPaths raw))).selectedFiles =
      (ctx.withFiles raw).selectedFiles) ∧
    ∀ ctx : Context,
      (ctx.withFiles (joinPaths ctx.selectedFiles)).selectedFiles = ctx.selectedFiles := by
  refine ⟨splitPaths_joinPaths_splitPaths, fun paths => ?_, fun ctx raw => ?_,
    selectedFiles_normalized⟩
  · rw [splitPaths_joinPaths_iff]
    exact forall₂_congr fun _ _ => isPath_iff
  · rw [selectedFiles_withFiles, selectedFiles_withFiles, splitPaths_joinPaths_splitPaths]

end Stencil.Context

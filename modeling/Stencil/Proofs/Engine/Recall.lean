import Stencil.Proofs.Engine.Choices
import Stencil.Proofs.Engine.Lookups

/-!
# What a Context Recalls

A rendering of a template of lookups puts in what was found at first, and has it in the context, under
the primary key of the token's directive; where nothing was found it has nothing.  So the context tells,
for every token that was filled, what is in its place.

There is one exception: `selectedFileContents` writes the selected files that it finds in the context as
a list of paths, also when a token has been replaced by them already as they were.

Main statement: `Recalling.step`.
-/

namespace Stencil.Engine

open Stencil.Text Template Directives Catalog
open Context (selectedFilesKey inputKey joinPaths splitPaths)

variable {α : Type}

/-! ## §1 The text of a key -/

/-- The text that a context has for the tokens of a name, or nothing. -/
def shownText (host : Host) (ctx : Context) (name : String) : String :=
  (seedText? (builtin host) ctx name).getD ""

theorem seedText?_lookup {host : Host} {desktop : FixedDesktop} {d : Builtin} (hd : d ∈ lookups host)
    {key : String} (hlookup : IsLookup desktop d key) (ctx : Context) :
    seedText? (builtin host) ctx d.name = if ctx.isResolved key then ctx.text? key else none := by
  rw [seedText?, find?_of_mem (nodup_builtin host) (mem_builtin_of_mem_lookups hd)]
  simp [hlookup.primary]

theorem isResolved_of_seedText?_eq_none {host : Host} {desktop : FixedDesktop} {d : Builtin}
    (hd : d ∈ lookups host) {key : String} (hlookup : IsLookup desktop d key) {ctx : Context}
    (hnone : seedText? (builtin host) ctx d.name = none) : ctx.isResolved key = false := by
  rw [seedText?_lookup hd hlookup] at hnone
  by_contra hresolved
  rw [Bool.not_eq_false] at hresolved
  obtain ⟨v, hv⟩ := exists_of_isResolved hresolved
  rw [if_pos hresolved, Context.text?, hv] at hnone
  exact absurd hnone (by simp)

/-- Whether an outcome puts in nothing and leaves a context as it is. -/
def Quiet (key : String) (ctx : Context) (o : Outcome) : Prop :=
  o.text = "" ∧ (o.fields = [] ∨ o.fields = [(key, .text "")] ∧ ctx.get? key = some (.text ""))

theorem Quiet.merge {key : String} {ctx : Context} {o : Outcome} (h : Quiet key ctx o) :
    Context.merge ctx o.fields = ctx := by
  rcases h.2 with hfields | ⟨hfields, hget⟩
  · rw [hfields]
    rfl
  · rw [hfields]
    refine Dict.ext_get? fun k => ?_
    show (ctx.insert key (.text "")).get? k = _
    rw [Dict.get?_insert]
    split
    · rename_i hk
      rw [hk, hget]
    · rfl

/-- Whether the selected files are read from the context as they were written to it: the text that the
seed has for them is a list of paths as it is written, or else the paths of the desktop are those that
are read from their list. -/
def FilesSettled (desktop : FixedDesktop) (seed : Context) : Prop :=
  match seed.text? selectedFilesKey with
  | some raw => joinPaths (splitPaths raw) = raw
  | none => splitPaths (joinPaths desktop.selectedFiles) = desktop.selectedFiles

/-- What was seen of the selected files is seen again when it has been written. -/
theorem selectionIn_written {desktop : FixedDesktop} {seed ctx : Context}
    (hsettled : FilesSettled desktop seed)
    (hget : ctx.get? selectedFilesKey = some (.text (joinPaths (selectionIn desktop seed)))) :
    selectionIn desktop ctx = selectionIn desktop seed := by
  rw [selectionIn_of_text? (congrArg (Option.map _) hget)]
  show splitPaths (joinPaths _) = _
  rw [FilesSettled] at hsettled
  -- It came from the seed, which writing it as paths leaves as it reads, or from the desktop.
  cases htext : seed.text? selectedFilesKey with
  | some raw => rw [selectionIn_of_text? htext, Context.splitPaths_joinPaths_splitPaths]
  | none =>
    rw [htext] at hsettled
    have hseen : selectionIn desktop seed = desktop.selectedFiles := by
      rw [selectionIn, if_neg]
      intro hresolved
      obtain ⟨v, hv⟩ := exists_of_isResolved hresolved
      rw [Context.text?, hv] at htext
      exact absurd htext (by simp)
    rw [hseen]
    exact hsettled

/-- What has become of the key and the place of a token whose directive was evaluated with this outcome
at first. -/
inductive Recalled (seed ctx : Context) (key : String) (first : Outcome) (place : Option PlainText) :
    Prop where
  /-- The seed has the text, and so has the context. -/
  | seeded (hseed : seed.isResolved key = true) (hctx : ctx.isResolved key = true)
      (htext : ctx.text? key = seed.text? key)
      (hplace : ∀ text, place = some text → seed.text? key = some (.ofList text.1))
  /-- The text was found. -/
  | found (hseed : seed.isResolved key = false) (hctx : ctx.isResolved key = true)
      (hfirst : first ≠ .empty) (htext : ctx.text? key = some first.text)
      (hplace : ∀ text, place = some text → .ofList text.1 = first.text)
  /-- Nothing was found so far. -/
  | missing (hseed : seed.isResolved key = false) (hctx : ctx.isResolved key = false)
      (hplace : ∀ text, place = some text → .ofList text.1 = "" ∧ Quiet key ctx first)

namespace Recalled

variable {seed ctx : Context} {key : String} {first : Outcome} {place : Option PlainText}

/-- Only the value under the key matters. -/
theorem congr (h : Recalled seed ctx key first place) {ctx' : Context}
    (hget : ctx'.get? key = ctx.get? key) : Recalled seed ctx' key first place := by
  have hresolved : ctx'.isResolved key = ctx.isResolved key := by
    rw [Context.isResolved, Context.isResolved, hget]
  have hsame : ctx'.text? key = ctx.text? key := congrArg (Option.map _) hget
  cases h with
  | seeded hseed hctx htext hplace =>
    exact .seeded hseed (hresolved.trans hctx) (hsame.trans htext) hplace
  | found hseed hctx hfirst htext hplace =>
    exact .found hseed (hresolved.trans hctx) hfirst (hsame.trans htext) hplace
  | missing hseed hctx hplace =>
    refine .missing hseed (hresolved.trans hctx) fun text htext => ?_
    obtain ⟨hempty, hquiet, hfields⟩ := hplace text htext
    exact ⟨hempty, hquiet, hfields.imp_right fun h => ⟨h.1, hget.trans h.2⟩⟩

/-- What was put in place is what the context has. -/
theorem shown {host : Host} {desktop : FixedDesktop} {d : Builtin} (hd : d ∈ lookups host)
    (hlookup : IsLookup desktop d key) (h : Recalled seed ctx key first place) {text : PlainText}
    (hplace : place = some text) : .ofList text.1 = shownText host ctx d.name := by
  rw [shownText, seedText?_lookup hd hlookup]
  cases h with
  | seeded hseed hctx htext htexts =>
    rw [if_pos hctx, htext, htexts text hplace, Option.getD_some]
  | found hseed hctx hfirst htext htexts =>
    rw [if_pos hctx, htext, htexts text hplace, Option.getD_some]
  | missing hseed hctx htexts =>
    rw [if_neg (by simp [hctx]), (htexts text hplace).1, Option.getD_none]

section Step

variable {desktop : FixedDesktop} {d : Builtin} (hlookup : IsLookup desktop d key) {m m' : Machine}
  {place' : Option PlainText}
include hlookup

/-- The directive puts in what it was evaluated with at first. -/
theorem own_first (hseed : seed.isResolved key = false)
    (h : Recalled seed ctx key (plainOutcome d seed m) place)
    (hplace : ∀ text, place' = some text →
      place = some text ∨ .ofList text.1 = (plainOutcome d seed m).text) :
    Recalled seed (Context.merge ctx (plainOutcome d seed m).fields) key (plainOutcome d seed m)
      place' := by
  -- Whatever is in place by now is the text of that outcome.
  have htexts : ∀ text, place' = some text → .ofList text.1 = (plainOutcome d seed m).text := by
    intro text htext
    rcases hplace text htext with hold | hnew
    · cases h with
      | seeded hseed' => exact absurd (hseed.symm.trans hseed') (by simp)
      | found _ _ _ _ holds => exact holds text hold
      | missing _ _ holds => rw [(holds text hold).1, (holds text hold).2.1]
    · exact hnew
  rcases hlookup.written seed m hseed with hempty | ⟨rest, hfields, hrest, hinput⟩
  · -- Nothing is found, and nothing was found before.
    rw [hempty] at h htexts ⊢
    cases h with
    | seeded hseed' => exact absurd (hseed.symm.trans hseed') (by simp)
    | found _ _ hfirst => exact absurd rfl hfirst
    | missing _ hctx _ =>
      exact .missing hseed hctx fun text htext => ⟨htexts text htext, rfl, .inl rfl⟩
  · -- The text is written under the key, and then other keys are.
    have hget : (Context.merge ctx (plainOutcome d seed m).fields).get? key =
        some (.text (plainOutcome d seed m).text) := by
      rw [hfields]
      show ((ctx.insert key _).insertAll rest).get? key = _
      rw [Dict.get?_insertAll_of_ne hrest, Dict.get?_insert, if_pos rfl]
    have hfirst : plainOutcome d seed m ≠ .empty := by
      intro hempty
      rw [hempty] at hfields
      exact absurd hfields (by simp [Outcome.empty])
    cases hresolved : (Context.merge ctx (plainOutcome d seed m).fields).isResolved key with
    | true => exact .found hseed hresolved hfirst (congrArg (Option.map _) hget) htexts
    | false =>
      -- Only what is typed may be empty, and then no other key is written.
      have hempty := hresolved
      rw [Context.isResolved, hget] at hempty
      simp only [Bool.or_eq_false_iff, bne_eq_false_iff_eq, Bool.not_eq_false'] at hempty
      obtain ⟨hkey, htext⟩ := hempty
      have hnone : (plainOutcome d seed m).text = "" := String.isEmpty_iff.1 htext
      rw [hinput hkey, hnone] at hfields
      rw [hnone] at hget
      refine .missing hseed hresolved fun text htext => ?_
      exact ⟨(htexts text htext).trans hnone, hnone, .inr ⟨hfields, hget⟩⟩

/-- So it does whenever it is evaluated. -/
theorem own (hm : SameSources m m') (happ : SameApplication desktop seed ctx)
    (hselection : asksForFiles d.name = true → selectionIn desktop ctx = selectionIn desktop seed)
    (hseed : seed.isResolved key = false)
    (h : Recalled seed ctx key (plainOutcome d seed m) place)
    (hplace : ∀ text, place' = some text →
      place = some text ∨ .ofList text.1 = (plainOutcome d ctx m').text) :
    Recalled seed (Context.merge ctx (plainOutcome d ctx m').fields) key (plainOutcome d seed m)
      place' := by
  rcases hlookup.again seed ctx m m' hm happ hselection hseed with
    hfirst | ⟨hresolved, hfields, htext⟩
  · rw [hfirst] at hplace ⊢
    exact h.own_first hlookup hseed hplace
  · -- The text that the context has by now is put in.
    rw [hfields]
    cases h with
    | seeded hseed' => exact absurd (hseed.symm.trans hseed') (by simp)
    | missing _ hctx => exact absurd (hctx.symm.trans hresolved) (by simp)
    | found _ hctx hfirst hfound holds =>
      refine .found hseed hctx hfirst hfound fun text hplaced => ?_
      rcases hplace text hplaced with hold | hnew
      · exact holds text hold
      · exact hnew.trans (Option.some.inj (htext.symm.trans hfound))

end Step

/-- The list of the selected files is the text that they have already. -/
theorem list {host : Host} {desktop : FixedDesktop} (hdesktop : host.desktop = .fixed desktop)
    (hsettled : FilesSettled desktop seed) {m : Machine} {ctx' : Context}
    (hget : ctx'.get? selectedFilesKey = some (.text (joinPaths (selectionIn desktop seed))))
    (h : Recalled seed ctx selectedFilesKey (plainOutcome (selectedFiles host) seed m) place) :
    Recalled seed ctx' selectedFilesKey (plainOutcome (selectedFiles host) seed m) place := by
  have hresolved : ctx'.isResolved selectedFilesKey = true := by
    rw [isResolved_iff (by decide), hget]
    simp
  have htext' : ctx'.text? selectedFilesKey = some (joinPaths (selectionIn desktop seed)) :=
    congrArg (Option.map _) hget
  rw [plainOutcome_selectedFiles hdesktop] at h ⊢
  cases h with
  | seeded hseed hctx htext hplace =>
    refine .seeded hseed hresolved ?_ hplace
    obtain ⟨v, hv⟩ := exists_of_isResolved hseed
    have hraw : seed.text? selectedFilesKey = some (Context.valueText v) := congrArg (Option.map _) hv
    rw [FilesSettled, hraw] at hsettled
    rw [htext', selectionIn_of_text? hraw, hsettled, hraw]
  | found hseed hctx hfirst htext hplace =>
    exact .found hseed hresolved hfirst htext' hplace
  | missing hseed hctx hplace =>
    -- Then the list is empty, and was put in as such.
    refine .found hseed hresolved (by simp [Outcome.keyed, Outcome.empty]) htext' fun text htext => ?_
    rw [(hplace text htext).1, (hplace text htext).2.1]

end Recalled

/-! ## §2 A rendering that recalls -/

variable {host : Host} {desktop : FixedDesktop} {cells : List (Cell (Leaf α))} {seed : Context}
  {m : Machine}

/-- Whether all heads of a layout have neither arguments nor a body, and look something up. -/
def LooksUp (host : Host) (l : Layout α) : Prop :=
  ∀ h ∈ l.heads, h.opening.args.isEmpty = true ∧ h.body = none ∧
    ∃ d ∈ lookups host, d.name = h.opening.name

/-- Whether all heads of a layout that ask for the selected files are written alike. -/
def AskAlike (l : Layout α) : Prop :=
  ∀ h ∈ l.heads, ∀ h' ∈ l.heads, asksForFiles h.opening.name = true →
    asksForFiles h'.opening.name = true → h.chars = h'.chars

/-- Whether a rendering has put in what was found at first, and has it in the context. -/
structure Recalling (host : Host) (desktop : FixedDesktop) (l : Layout α) (seed : Context) (m : Machine)
    (r : Rendering Machine) (u : Filling α) : Prop where
  /-- There is still the same to look up. -/
  sources : SameSources m r.state
  /-- No application has come from elsewhere. -/
  application : SameApplication desktop seed r.context
  /-- As long as there is a token that asks for them, the same files are selected. -/
  selection : ∀ h ∈ l.heads, asksForFiles h.opening.name = true → u h.tag = none →
    selectionIn desktop r.context = selectionIn desktop seed
  /-- Every token has got its text. -/
  recalled : ∀ h ∈ l.heads, ∀ d ∈ lookups host, d.name = h.opening.name → ∀ key,
    IsLookup desktop d key → Recalled seed r.context key (plainOutcome d seed m) (u h.tag)

variable [DecidableEq α]

/-- A rendering has done so before the first visit. -/
theorem recalling_startIn {l : Layout α} (hnd : l.tags.Nodup) (template : String) :
    Recalling host desktop l seed m (startIn (builtin host) template seed m)
      (seedFilling l (builtin host) seed) := by
  refine ⟨.refl m, fun _ => rfl, fun _ _ _ _ => rfl, fun h hh d hd hname key hlookup => ?_⟩
  have hplace : seedFilling l (builtin host) seed h.tag =
      (if seed.isResolved key then seed.text? key else none).bind plainText? := by
    rw [seedFilling, fillingBy_tag hnd _ hh, ← hname, seedText?_lookup hd hlookup]
  rw [hplace]
  show Recalled seed seed key _ _
  cases hseed : seed.isResolved key with
  | true =>
    refine .seeded hseed hseed rfl fun text htext => ?_
    obtain ⟨s, hs, hplain⟩ := Option.bind_eq_some_iff.1 htext
    rw [← eq_of_plainText? hplain]
    exact hs
  | false => exact .missing hseed hseed (by simp)

/-- What a result is put in the place of: only tokens of the name that were not filled. -/
theorem then_resultFilling {l : Layout α} (hnd : l.tags.Nodup) {u : Filling α} {d : Builtin}
    {head : Head α} (hhead : head ∈ (l.fill u).heads) (hname : head.opening.name = d.name)
    (text : PlainText) {h : Head α} (hh : h ∈ l.heads) :
    (d.name ≠ h.opening.name → u.then (resultFilling (l.fill u) d head text) h.tag = u h.tag) ∧
      ∀ text', u.then (resultFilling (l.fill u) d head text) h.tag = some text' →
        u h.tag = some text' ∨ text' = text := by
  have hnd' : (l.fill u).tags.Nodup := (tags_fill_sublist u l).nodup hnd
  obtain ⟨-, hothers⟩ := resultFilling_spec hnd' hhead hname text
  -- What was filled stays filled; of the others, only tokens of the directive take the result.
  cases hu : u h.tag with
  | some old =>
    rw [Filling.then, hu, Option.some_or]
    exact ⟨fun _ => rfl, fun _ => .inl⟩
  | none =>
    rw [Filling.then, hu, Option.none_or]
    refine ⟨fun hne => ?_, fun text' hv => .inr (hothers _ _ hv).1⟩
    cases hv : resultFilling (l.fill u) d head text h.tag with
    | none => rfl
    | some text' =>
      obtain ⟨-, h', hh', htag, hname', -⟩ := hothers _ _ hv
      obtain ⟨-, h₀, hh₀, htag₀, hopening⟩ := mem_heads_fill hh'
      obtain rfl := eq_of_tag_eq hnd hh₀ hh (htag₀.trans htag)
      exact absurd (hname'.symm.trans (by rw [hopening])) hne

section Step

variable (hdesktop : host.desktop = .fixed desktop) (hnd : (flat cells).tags.Nodup)
  (hlookups : LooksUp host (flat cells)) {r : Rendering Machine} {u : Filling α} {d : Builtin}
  {head : Head α} {pos : Nat} {text : PlainText} (hd : d ∈ builtin host)
  (hmark : (head, pos) ∈ ((flat cells).fill u).marks 0) (hname : head.opening.name = d.name)
include hlookups hd hmark hname

omit [DecidableEq α] in
/-- A token that is evaluated is one of those that look something up. -/
theorem LooksUp.evaluated : d ∈ lookups host ∧ head ∈ (flat cells).heads ∧ u head.tag = none ∧
    head.opening.args.isEmpty = true := by
  have hhead := mem_heads_of_mem_marks hmark
  obtain ⟨h₀, hh₀, -, hopening, hsame⟩ := eq_of_mem_heads_fill hhead
  obtain ⟨hargs, hbody, d', hd', hname'⟩ := hlookups h₀ hh₀
  obtain rfl : head = h₀ := hsame fun body hsome => absurd (hbody.symm.trans hsome) (by simp)
  obtain rfl : d' = d :=
    eq_of_name (mem_builtin_of_mem_lookups hd') hd (hname'.trans hname)
  exact ⟨hd', hh₀, (mem_heads_fill hhead).1, hargs⟩

include hdesktop

omit [DecidableEq α] in
/-- The application stays as it was where the desktop knows none. -/
theorem SameApplication.step (h : SameApplication desktop seed r.context) :
    SameApplication desktop seed (r.step d (head.token pos)).context := by
  obtain ⟨hmem, -, -, hargs⟩ := hlookups.evaluated hd hmark hname
  obtain ⟨key, hlookup⟩ := exists_isLookup hdesktop hmem
  intro hnone
  rw [← h hnone]
  by_cases hkey : "currentAppName" ∈ writtenKeys d
  · -- Only `currentApplication` writes it, and that finds nothing.
    have happ : currentApplication host ∈ lookups host := by simp [lookups, Directives.desktop]
    rcases eq_of_mem_writtenKeys happ hmem rfl hkey with rfl | ⟨-, happ⟩
    · rw [context_step, hlookup.outcome_eq _ _ _ hargs,
        plainOutcome_currentApplication hdesktop hnone]
      rfl
    · exact absurd (show "currentApplication" = "selectedFiles" from congrArg Directive.name happ)
        (by decide)
  · exact get?_context_step hd hkey r _

/-- As long as a token is left that asks for them, the same files are selected. -/
theorem selection_step (hsettled : AskAlike (flat cells) ∨ FilesSettled desktop seed)
    (h : ∀ h ∈ (flat cells).heads, asksForFiles h.opening.name = true → u h.tag = none →
      selectionIn desktop r.context = selectionIn desktop seed) (hnd : (flat cells).tags.Nodup) :
    ∀ h ∈ (flat cells).heads, asksForFiles h.opening.name = true →
      u.then (resultFilling ((flat cells).fill u) d head text) h.tag = none →
      selectionIn desktop (r.step d (head.token pos)).context = selectionIn desktop seed := by
  obtain ⟨hmem, hhead, hunfilled, -⟩ := hlookups.evaluated hd hmark hname
  intro h' hh' hasks' hnone
  obtain ⟨hold, hnew⟩ := Option.or_eq_none_iff.1 hnone
  have hbefore := h h' hh' hasks' hold
  cases hasks : asksForFiles d.name with
  | false =>
    -- Others do not write the selected files.
    rw [← hbefore]
    refine selectionIn_congr (get?_context_step hd (fun hkey => ?_) r _)
    rw [asksForFiles_of_mem_writtenKeys hd hkey] at hasks
    exact absurd hasks (by simp)
  | true =>
    rcases hsettled with halike | hsettled
    · -- Then this token was written like the one that was evaluated, and is filled as well.
      have hchars := halike h' hh' head hhead hasks' (by rwa [hname])
      have hconstant : d.constant = true := by
        rcases eq_of_asksForFiles hd hasks with rfl | rfl <;> rfl
      have hname' : h'.opening.name = d.name :=
        (congrArg Token.name (token_of_chars_eq hchars 0)).trans hname
      have hnd' := (tags_fill_sublist u (flat cells)).nodup hnd
      rw [resultFilling, fillingBy_tag hnd' _ (mem_heads_fill_flat hh' hold),
        if_pos ((alike_of_constant hconstant).2 ⟨hname', hchars⟩)] at hnew
      exact absurd hnew (by simp)
    · -- What was seen is written, and is read again as it was.
      refine selectionIn_written hsettled ?_
      rw [context_step, get?_of_asksForFiles (selection_fixed hdesktop r.context r.state) _ hd hasks,
        hbefore]

/-- An evaluation keeps what was recalled. -/
theorem Recalling.step (hnd : (flat cells).tags.Nodup)
    (hsettled : AskAlike (flat cells) ∨ FilesSettled desktop seed)
    (htracks : Tracks (builtin host) seed (flat cells) r u)
    (h : Recalling host desktop (flat cells) seed m r u)
    (htext : (⟨d, head.token pos, r.context, r.state⟩ : Evaluation Machine).outcome.text =
      .ofList text.1) :
    Recalling host desktop (flat cells) seed m (r.step d (head.token pos))
      (u.then (resultFilling ((flat cells).fill u) d head text)) := by
  obtain ⟨hmem, hhead, hunfilled, hargs⟩ := hlookups.evaluated hd hmark hname
  obtain ⟨key, hlookup⟩ := exists_isLookup hdesktop hmem
  have hleft := mem_heads_of_mem_marks hmark
  have hselection : asksForFiles d.name = true →
      selectionIn desktop r.context = selectionIn desktop seed := fun hasks =>
    h.selection head hhead (by rwa [hname]) hunfilled
  have houtcome := hlookup.outcome_eq (head.token pos) r.context r.state hargs
  -- A token is only left to evaluate if the seed has no text for it.
  have hunseeded : seed.isResolved key = false :=
    isResolved_of_seedText?_eq_none hmem hlookup (hname ▸ htracks.seeded head hleft)
  refine ⟨h.sources.trans (hlookup.sources _ _ _ hargs),
    SameApplication.step hdesktop hlookups hd hmark hname h.application,
    selection_step hdesktop hlookups hd hmark hname hsettled h.selection hnd, ?_⟩
  intro h' hh' d' hd' hname' key' hlookup'
  obtain ⟨hother, htexts⟩ := then_resultFilling hnd hleft hname text hh'
  have hrecalled := h.recalled h' hh' d' hd' hname' key' hlookup'
  by_cases hsame : d' = d
  · -- The directive itself.
    obtain rfl := hsame
    obtain rfl := Option.some.inj (hlookup.primary.symm.trans hlookup'.primary)
    rw [context_step, houtcome]
    refine hrecalled.own hlookup h.sources h.application hselection hunseeded fun text' hv => ?_
    refine (htexts text' hv).imp_right fun heq => ?_
    rw [heq, ← htext, houtcome]
  · -- Another directive, whose places stay as they are.
    have hne : d.name ≠ h'.opening.name := fun heq => hsame
      (eq_of_name (mem_builtin_of_mem_lookups hd') hd (hname'.trans heq.symm))
    rw [hother hne]
    by_cases hkey : key' ∈ writtenKeys d
    · -- The list of the selected files, which other tokens stand for.
      rcases eq_of_mem_writtenKeys hd' hmem hlookup'.primary hkey with heq | ⟨rfl, rfl⟩
      · exact absurd heq.symm hsame
      · obtain rfl : selectedFilesKey = key' := Option.some.inj hlookup'.primary
        -- Two names are never written alike.
        have hfiles : FilesSettled desktop seed := hsettled.resolve_left fun halike => by
          have hchars := halike head hhead h' hh' (by rw [hname]; rfl) (by rw [← hname']; rfl)
          exact hne (hname.symm.trans (congrArg Token.name (token_of_chars_eq hchars 0)))
        refine hrecalled.list hdesktop hfiles ?_
        rw [context_step,
          get?_of_asksForFiles (selection_fixed hdesktop r.context r.state) _ hd rfl, hselection rfl]
    · exact hrecalled.congr (get?_context_step hd hkey r _)

end Step

end Stencil.Engine

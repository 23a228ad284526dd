import Stencil.Proofs.Engine.VariableTemplates
import Stencil.Proofs.Template.RawText

/-!
# Variables of Any Name

A template can call an operation on a variable whatever its name is, with the name in quotes and a
backslash before every quote and backslash in it.  Braces, colons and line breaks in a quoted name are
read as any other character.  So a variable that is set in this way is the one that is read in this way.

The store changes the first record of a name only.  If its list holds a second one, that is the one read
from then on; a list that the store has written itself never does.

Main statement: `set_get_addressed`.
-/

namespace Stencil.Engine

open Stencil.Text Store Template Directives Catalog VariableOperation

variable {σ : Type}

/-! ## §1 Templates that are one token -/

section OneToken

variable {template : String} {t : Token} (hpieces : pieces template = [.token t []])
include hpieces

/-- The text is all replaced by what the token gives. -/
theorem splice_one (result : String) : splice template [⟨t.span, result⟩] = result := by
  have hwritten := written_of_pieces hpieces
  obtain ⟨tail, htail⟩ := hwritten.exists_cons
  have hne : template.toList ≠ [] := by simp [htail]
  have hpatched := Patched.whole 0 result hne
  rw [← hwritten.span_eq] at hpatched
  rw [splice_eq_of_patched hpatched, String.ofList_toList]

/-- Its one token. -/
theorem tokens_one : tokens template = [t] := by
  simp [tokens, hpieces, Piece.tokens]

theorem text_step_one {d : Directive σ} (hname : t.name = d.name) (ctx : Context) (s : σ) :
    (Rendering.step ⟨template, ctx, s, []⟩ d t).text = (Evaluation.mk d t ctx s).outcome.text := by
  -- Whether the result is put in place of this token or of all written alike, there is only this one.
  have hedits (result : String) : editsFor d template t result = [⟨t.span, result⟩] := by
    simp [editsFor, tokensNamed, tokens_one hpieces, hname]
  exact (congrArg (splice template) (hedits _)).trans (splice_one hpieces _)

/-- Rendering makes one evaluation, if the directive has no fields and what it gives no braces. -/
theorem renderIn_one {order : List (Directive σ)} {d : Directive σ} {limit : Nat}
    (hfind : Directive.find? order t.name = some d) (hkeys : d.resultKeys = [])
    (hdeps : d.dependencies = []) (hlimit : 1 ≤ limit) (seed : Context) (s : σ)
    (hfree : BraceFree (Evaluation.mk d t seed s).outcome.text.toList) :
    renderIn order limit template seed s = Rendering.step ⟨template, seed, s, []⟩ d t := by
  obtain ⟨hname, before, after, hsplit, hbefore⟩ := List.find?_eq_some_iff_append.1 hfind
  replace hname : t.name = d.name := (beq_iff_eq.1 hname).symm
  have htokens := tokens_one hpieces
  have hstart : startIn order template seed s = ⟨template, seed, s, []⟩ := by
    have hnone : ∀ u ∈ tokens template, seedText? order seed u.name = none := by
      simp [htokens, seedText?, hfind, hkeys]
    rw [startIn, applySeed_of_none hnone]
  have hfirst : firstNamed template d.name = some (t, []) := by
    simp [firstNamed, hpieces, Piece.firstNamed, hname]
  have hdone : tokens (Rendering.step ⟨template, seed, s, []⟩ d t).text = [] := by
    rw [text_step_one hpieces hname]
    exact tokens_of_braceFree hfree
  have hvisit : visit order limit ⟨template, seed, s, []⟩ d =
      Rendering.step ⟨template, seed, s, []⟩ d t := by
    obtain ⟨k, rfl⟩ : ∃ k, limit = k + 1 := ⟨limit - 1, by omega⟩
    rw [visit_eq_resolve hkeys hdeps, resolve]
    simp only [hfirst]
    exact resolve_of_not_mentioned (by simp [hdone])
  -- Directives in front of it have other names, and those behind it find no tokens.
  have hpassed : before.foldl (visit order limit) ⟨template, seed, s, []⟩ = ⟨template, seed, s, []⟩ := by
    refine visits_of_not_mentioned fun d' hd' u hu => ?_
    have hne : d'.name ≠ t.name := by simpa using hbefore d' hd'
    rw [htokens, List.mem_singleton] at hu
    rw [hu]
    exact hne.symm
  rw [renderIn_eq, hstart]
  conv_lhs => rw [hsplit, List.foldl_append, ← hsplit, hpassed, List.foldl_cons, hvisit]
  exact visits_of_not_mentioned (by simp [hdone])

end OneToken

/-! ## §2 Calls by quoted names -/

/-- A text with a backslash before each of its quotes and backslashes. -/
def escapeMarks (text : List Char) : List Char :=
  text.flatMap fun c => if c = '"' ∨ c = '\\' then ['\\', c] else [c]

/-- Between quotes that is the text. -/
theorem writtenQuoted_escapeMarks (text : List Char) : WrittenQuoted (escapeMarks text) text := by
  induction text with
  | nil => exact .nil
  | cons c text ih =>
    by_cases hc : c = '"' ∨ c = '\\'
    · simpa [escapeMarks, hc] using WrittenQuoted.escape c ih
    · obtain ⟨hquote, hslash⟩ := not_or.1 hc
      simpa [escapeMarks, hc] using WrittenQuoted.char hquote hslash ih

/-- A call of an operation on a variable by its name in quotes, with a body if there is one. -/
def addressed (op : VariableOperation) (name : String) (body : Option String) : String :=
  "\x7b\x7b" ++ op.name ++ " \"" ++ .ofList (escapeMarks name.toList) ++ "\"" ++
    body.elim "" (":" ++ ·) ++ "\x7d\x7d"

/-- What stands in such a call in front of the body. -/
def addressFront (op : VariableOperation) (name : String) : List Char :=
  op.name.toList ++ ' ' :: '"' :: (escapeMarks name.toList ++ ['"'])

/-- The call is a token as it is written. -/
theorem addressed_eq (op : VariableOperation) (name : String) (body : Option String) :
    addressed op name body = .ofList (braced (addressFront op name) (body.map String.toList)) := by
  rw [← String.toList_inj, String.toList_ofList]
  cases body <;> simp [addressed, addressFront, braced, String.toList_append]

/-- The token of such a call. -/
def addressedToken (op : VariableOperation) (name : String) (body : Option String) : Token :=
  tokenAt 0 (addressFront op name) op.name ⟨[name], .empty⟩ (body.map String.toList)

theorem writtenHeader_addressFront (op : VariableOperation) (name : String) :
    WrittenHeader (addressFront op name) op.name ⟨[name], .empty⟩ := by
  have hvalid : isValidName op.name = true := by cases op <;> decide
  have hblank : ∀ c ∈ [' '], isBlank c = true := List.forall_mem_singleton.2 (by decide)
  have hname := WrittenArgument.quoted (writtenQuoted_escapeMarks name.toList)
  have hall := WrittenArguments.cons (List.cons_ne_nil _ _) hblank hname
    (@WrittenArguments.nil [] (List.forall_mem_nil _))
  rw [String.ofList_toList] at hall
  have hheader : WrittenHeader _ _ ⟨[name], .empty⟩ :=
    .intro hvalid hall (collects_foldl [.word name])
  simpa [addressFront] using hheader

/-- The call is read as its token, whatever the name is. -/
theorem pieces_addressed (op : VariableOperation) (name : String) {body : Option String}
    (hbody : ∀ text ∈ body, BraceFree text.toList) :
    pieces (addressed op name body) = [.token (addressedToken op name body) []] := by
  rw [addressed_eq]
  exact pieces_braced (writtenHeader_addressFront op name) (by simpa using hbody)

/-! ## §3 Rendering calls -/

/-- The directive of an operation is found among the host's own directives, if none of these has its
name, and the built-in ones. -/
theorem find?_evaluationOrder {custom : List Builtin} {op : VariableOperation}
    (hcustom : ∀ d ∈ custom, d.name ≠ op.name) (host : Host) :
    Directive.find? (evaluationOrder custom (builtin host)) op.name = some (op.directive host) := by
  have hkept : op.directive host ∈ (builtin host).filter fun d => !custom.any (·.name == d.name) := by
    have hname : (op.directive host).name = op.name := rfl
    exact List.mem_filter.2 ⟨mem_builtin_variable op host, by simpa [hname] using hcustom⟩
  have hnd := (nodup_builtin host).sublist
    ((List.filter_sublist (p := fun d => !custom.any (·.name == d.name))).map Directive.name)
  have hnone : custom.find? (·.name == op.name) = none := by simpa using hcustom
  rw [evaluationOrder, Directive.find?, List.find?_append, hnone]
  exact find?_of_mem hnd hkept

/-- Rendering a call makes it, and gives what that gives if there are no braces in it. -/
theorem render_addressed {custom : List Builtin} {op : VariableOperation}
    (hcustom : ∀ d ∈ custom, d.name ≠ op.name) {host : Host} {limit : Nat} (hlimit : 1 ≤ limit)
    {name : String} {body : Option String} (hbody : ∀ text ∈ body, BraceFree text.toList)
    (seed : Context) {m m' : Machine} {text : String}
    (hrun : op.evaluate host (addressedToken op name body) m = .ok text m')
    (hfree : BraceFree text.toList) :
    (render custom (builtin host) limit (addressed op name body) seed m).text = text ∧
      (render custom (builtin host) limit (addressed op name body) seed m).state = m' := by
  have hpieces := pieces_addressed op name hbody
  have happly : (op.directive host).apply (addressedToken op name body) seed m =
      .ok (.ofText text) m' := bind_of_ok hrun
  have houtcome : (Evaluation.mk (op.directive host) (addressedToken op name body) seed m).outcome =
      .ofText text := outcome_of_apply happly
  -- The text is this one token, so a single step leaves nothing to evaluate.
  have hrender := renderIn_one hpieces (find?_evaluationOrder hcustom host) rfl rfl hlimit seed m
    (by rw [houtcome]; exact hfree)
  rw [render, hrender]
  refine ⟨?_, ?_⟩
  · rw [text_step_one hpieces rfl, houtcome]
    rfl
  · exact after_of_apply happly

/-- A call of an operation on a variable is about the name in quotes. -/
theorem target?_addressedToken {op : VariableOperation} (hop : op ≠ .increment ∧ op ≠ .decrement)
    {name : String} (hname : name ≠ "") (body : Option String) :
    op.target? (addressedToken op name body) = some name := by
  have hword : ((addressedToken op name body).args.word? 0).filter (!·.isEmpty) = some name := by
    simp [addressedToken, tokenAt, Arguments.word?, hname]
  cases op with
  | increment => exact absurd rfl hop.1
  | decrement => exact absurd rfl hop.2
  | _ => exact hword

/-- So it is the operation on that variable. -/
theorem evaluate_addressed {op : VariableOperation} (hop : op ≠ .increment ∧ op ≠ .decrement)
    {name : String} (hname : name ≠ "") (hlist : op ≠ .list) (body : Option String) (host : Host) :
    op.evaluate host (addressedToken op name body) =
      (op.perform host.backend name (body.getD "")).mapError .store := by
  have htarget := target?_addressedToken hop hname body
  have hsubject : op.subject (addressedToken op name body) = name := by
    rw [VariableOperation.subject.eq_2 _ _ hlist, htarget]
    rfl
  have hbody : (addressedToken op name body).bodyText = body.getD "" := by
    cases body <;> simp [addressedToken, tokenAt, Token.bodyText]
  rw [evaluate_eq (.inr (by rw [htarget]; rfl)), hsubject, hbody]

section Store

variable {host : Host} {m : Machine} {items : Items} {records : List Record}
  (hitems : host.place.items? m = some items) (hrecords : recordsIn items = .ok records)
  {name : String} (hname : name ≠ "")
include hitems hrecords hname

theorem evaluate_set (value : String) :
    ∃ m', VariableOperation.set.evaluate host (addressedToken .set name (some value)) m = .ok "" m' ∧
      Store.set host.backend name value m = .ok () m' ∧
      host.place.items? m' = some (withRecords items (setIn records name value)) := by
  obtain ⟨m', hset, hitems'⟩ := host.place.backend_keeps.set_ok hitems hrecords name value
  refine ⟨m', ?_, hset, hitems'⟩
  have hperform : VariableOperation.set.perform host.backend name value m = .ok "" m' := by
    change EStateM.bind (Store.set host.backend name value) _ m = _
    have hset' : Store.set host.backend name value m = .ok () m' := hset
    simp only [EStateM.bind, hset']
    rfl
  rw [evaluate_addressed (by decide) hname (by decide), Option.getD_some, Action.mapError, hperform]

theorem evaluate_get :
    ∃ m', VariableOperation.get.evaluate host (addressedToken .get name none) m =
        .ok (valueIn records name) m' ∧ host.place.items? m' = some items := by
  obtain ⟨m', hget, hitems'⟩ := host.place.backend_keeps.get_ok hitems hrecords name
  refine ⟨m', ?_, hitems'⟩
  have hperform : VariableOperation.get.perform host.backend name "" m =
      .ok (valueIn records name) m' := hget
  rw [evaluate_addressed (by decide) hname (by decide), Option.getD_none, Action.mapError, hperform]

end Store

/-! ## §4 Setting and getting -/

/-- Setting a variable by a call and then getting it gives what the store has for it then. -/
theorem text_set_get {host : Host} {custom : List Builtin}
    (hcustom : ∀ d ∈ custom, d.name ≠ "set" ∧ d.name ≠ "get") {limit : Nat} (hlimit : 1 ≤ limit)
    (seed seed' : Context) {m : Machine} {items : Items} {records : List Record}
    (hitems : host.place.items? m = some items) (hrecords : recordsIn items = .ok records)
    {name : String} (hname : name ≠ "") {value : String} (hvalue : BraceFree value.toList) :
    let r := render custom (builtin host) limit (addressed .set name (some value)) seed m
    let read := render custom (builtin host) limit (addressed .get name none) seed' r.state
    r.text = "" ∧ Store.set host.backend name value m = .ok () r.state ∧
      host.place.items? r.state = some (withRecords items (setIn records name value)) ∧
      (BraceFree (valueIn (setIn records name value) name).toList →
        read.text = valueIn (setIn records name value) name) := by
  intro r read
  have hsetter : ∀ d ∈ custom, d.name ≠ VariableOperation.set.name := fun d hd => (hcustom d hd).1
  have hgetter : ∀ d ∈ custom, d.name ≠ VariableOperation.get.name := fun d hd => (hcustom d hd).2
  obtain ⟨m', hrun, hset, hitems'⟩ := evaluate_set hitems hrecords hname value
  obtain ⟨htext, hstate⟩ : r.text = "" ∧ r.state = m' :=
    render_addressed hsetter hlimit (by simpa using hvalue) seed hrun braceFree_nil
  rw [← hstate] at hset hitems'
  refine ⟨htext, hset, hitems', fun hfree => ?_⟩
  -- The second call finds the record list that the first one has left.
  obtain ⟨m'', hget, -⟩ := evaluate_get hitems' (recordsIn_withRecords items _) hname
  exact (render_addressed hgetter hlimit (by simp) seed' hget hfree).1

/-- **A variable of any name is set and read by calls with its name in quotes.**  The first rendering
leaves no text and is the operation of the store; the second gives the value that was set, unless the
record list holds a second record of the name, whose value it then gives. -/
theorem set_get_addressed {host : Host} {custom : List Builtin}
    (hcustom : ∀ d ∈ custom, d.name ≠ "set" ∧ d.name ≠ "get") {limit : Nat} (hlimit : 1 ≤ limit)
    (seed seed' : Context) {m : Machine} {items : Items} {records : List Record}
    (hitems : host.place.items? m = some items) (hrecords : recordsIn items = .ok records)
    {name : String} (hname : name ≠ "") {value : String} (hvalue : BraceFree value.toList) :
    let r := render custom (builtin host) limit (addressed .set name (some value)) seed m
    let read := render custom (builtin host) limit (addressed .get name none) seed' r.state
    r.text = "" ∧ Store.set host.backend name value m = .ok () r.state ∧
      host.place.items? r.state = some (withRecords items (setIn records name value)) ∧
      ((∀ record ∈ dropFirst records name, record.name ≠ name) → read.text = value) ∧
      ∀ second, (dropFirst records name).find? (·.name == name) = some second →
        BraceFree second.value.toList → read.text = second.value := by
  intro r read
  obtain ⟨htext, hset, hitems', hread⟩ :=
    text_set_get hcustom hlimit seed seed' hitems hrecords hname hvalue
  rw [valueIn_setIn] at hread
  refine ⟨htext, hset, hitems', fun honly => ?_, fun second hsecond hfree => ?_⟩
  · have hnone : (dropFirst records name).find? (·.name == name) = none := by simpa using honly
    rw [hnone] at hread
    exact hread hvalue
  · rw [hsecond] at hread
    exact hread hfree

/-- A name of braces, quotes, backslashes, a colon and a line break. -/
theorem set_get_addressed_marks :
    let name := "\x7d\x7d\"\\:\x7b\x7b\n"
    let records : List Record := [⟨"a", "b", "c"⟩, ⟨name, "1", "1"⟩]
    let host := stillHost default
    let m := stillMachine (withRecords .empty records)
    name ≠ "" ∧ host.place.items? m = some m.items ∧ recordsIn m.items = .ok records ∧
      (∀ record ∈ dropFirst records name, record.name ≠ name) ∧
      (render [] (builtin host) 1 (addressed .get name none) .empty
        (render [] (builtin host) 1 (addressed .set name (some "2")) .empty m).state).text = "2" := by
  intro name records host m
  have hname : name ≠ "" := by decide
  have hitems : host.place.items? m = some m.items := rfl
  have hrecords : recordsIn m.items = .ok records := recordsIn_withRecords _ _
  have honly : ∀ record ∈ dropFirst records name, record.name ≠ name := by decide
  have hcustom : ∀ d ∈ ([] : List Builtin), d.name ≠ "set" ∧ d.name ≠ "get" := by simp
  obtain ⟨-, -, -, hread, -⟩ := set_get_addressed hcustom (Nat.le_refl 1) .empty .empty hitems
    hrecords hname (show BraceFree "2".toList by decide)
  exact ⟨hname, hitems, hrecords, honly, hread honly⟩

/-- The second of two records of one name stays as it is, and is the one that is read. -/
theorem not_set_get_addressed_twice :
    let host := stillHost default
    let m := stillMachine (withRecords .empty [⟨"n", "1", "1"⟩, ⟨"n", "2", "2"⟩])
    (render [] (builtin host) 1 (addressed .get "n" none) .empty
      (render [] (builtin host) 1 (addressed .set "n" (some "3")) .empty m).state).text ≠ "3" := by
  intro host m
  have hcustom : ∀ d ∈ ([] : List Builtin), d.name ≠ "set" ∧ d.name ≠ "get" := by simp
  have hitems : host.place.items? m = some m.items := rfl
  obtain ⟨-, -, -, hread⟩ := text_set_get hcustom (Nat.le_refl 1) .empty .empty hitems
    (recordsIn_withRecords _ _) (show "n" ≠ "" by decide) (show BraceFree "3".toList by decide)
  rw [hread (by decide)]
  decide

end Stencil.Engine

import Stencil.Directive
import Stencil.Template.Lookup
import Stencil.Template.Splice

/-!
# Rendering

A template is rendered in one ordered pass over the directives.

1. A token whose directive's primary key the context already resolves is replaced by that value.
2. The directives are visited once each: the host's own first, then the built-in ones that none of
   those replaces.  A directive without tokens in the text is passed over, and so is one whose
   result keys are all resolved.
3. At a visit the tokens of the directive's dependencies are worked off first, then its own: while
   there is one, it is evaluated, and the result put in its place; that of a constant directive also
   in the place of every token written alike.

Text that a directive puts in is seen by the directives visited later, and by the directive itself
while its tokens are worked off.  A limit keeps a directive that writes its own token from going on
for ever.

A rendering keeps a journal of its evaluations, the latest first.
-/

namespace Stencil.Engine

open Template

variable {σ : Type}

/-! ## State -/

/-- One evaluation of a directive. -/
structure Evaluation (σ : Type) where
  /-- The directive. -/
  directive : Directive σ
  /-- The token it was evaluated for. -/
  token : Token
  /-- The context it was evaluated in. -/
  context : Context
  /-- The state it was evaluated in. -/
  state : σ

/-- What an answer puts in place: a failure puts in empty text and no fields. -/
def outcomeOf : Except Failure Outcome → Outcome
  | .ok outcome => outcome
  | .error _ => .empty

namespace Evaluation

/-- Makes an evaluation: what it gives, or why it fails, and the state after it.  A failing one keeps
what it has done to the state. -/
def run (e : Evaluation σ) : Except Failure Outcome × σ :=
  match e.directive.apply e.token e.context e.state with
  | .ok outcome state => (.ok outcome, state)
  | .error failure state => (.error failure, state)

/-- What an evaluation gives, or why it fails. -/
def answer (e : Evaluation σ) : Except Failure Outcome := e.run.1

/-- What an evaluation puts in place. -/
def outcome (e : Evaluation σ) : Outcome := outcomeOf e.answer

/-- The state after an evaluation. -/
def after (e : Evaluation σ) : σ := e.run.2

end Evaluation

/-- A rendering under way, or done. -/
structure Rendering (σ : Type) where
  /-- The text so far. -/
  text : String
  /-- The context so far. -/
  context : Context
  /-- The state the directives work on. -/
  state : σ
  /-- The evaluations so far, the latest first. -/
  journal : List (Evaluation σ)

/-- The evaluations of a rendering in the order they were made. -/
def Rendering.evaluations (r : Rendering σ) : List (Evaluation σ) := r.journal.reverse

/-! ## Working off the tokens of one directive -/

/-- The edits that put a result in place: over the token, or over every token written alike when the
directive is constant. -/
def editsFor (d : Directive σ) (text : String) (token : Token) (result : String) : List Edit :=
  if d.constant then
    ((tokensNamed text d.name).filter (·.raw == token.raw)).map fun t => ⟨t.span, result⟩
  else [⟨token.span, result⟩]

/-- Evaluates a directive for one token of the text and puts the result in place. -/
def Rendering.step (r : Rendering σ) (d : Directive σ) (token : Token) : Rendering σ :=
  let e : Evaluation σ := ⟨d, token, r.context, r.state⟩
  let (answer, state) := e.run
  let outcome := outcomeOf answer
  { text := splice r.text (editsFor d r.text token outcome.text)
    context := Context.merge r.context outcome.fields
    state := state
    journal := e :: r.journal }

/-- Works off the tokens of a directive, with at most so many evaluations. -/
def resolve (d : Directive σ) : Nat → Rendering σ → Rendering σ
  | 0, r => r
  | limit + 1, r =>
    match firstNamed r.text d.name with
    | none => r
    | some (token, _) => resolve d limit (r.step d token)

/-! ## Seeded values -/

/-- The edit that replaces a token by its seeded value, if it has one. -/
def seededEdit? (order : List (Directive σ)) (ctx : Context) (token : Token) : Option Edit := do
  let d ← Directive.find? order token.name
  let key ← d.resultKeys.head?
  if Context.isResolved ctx key then
    let value ← Context.text? ctx key
    some ⟨token.span, value⟩
  else none

/-- The edits that do not start inside one kept before them; the text up to a position is taken. -/
def keepOuter (taken : Nat) : List Edit → List Edit
  | [] => []
  | e :: rest =>
    if e.span.start < taken then keepOuter taken rest else e :: keepOuter e.span.stop rest

/-- The template with its tokens replaced where the context already has their values.  A token that
is replaced takes the tokens in its body with it. -/
def applySeed (order : List (Directive σ)) (ctx : Context) (template : String) : String :=
  splice template (keepOuter 0 ((tokens template).filterMap (seededEdit? order ctx)))

/-! ## The pass -/

/-- The order of evaluation: the host's directives, then the built-in ones of other names. -/
def evaluationOrder (custom builtin : List (Directive σ)) : List (Directive σ) :=
  custom ++ builtin.filter fun d => !custom.any (·.name == d.name)

/-- What a visit of a directive works off: its dependencies, as far as there are such directives,
then the directive. -/
def worklist (order : List (Directive σ)) (d : Directive σ) : List (Directive σ) :=
  d.dependencies.filterMap (Directive.find? order) ++ [d]

/-- Visits a directive. -/
def visit (order : List (Directive σ)) (limit : Nat) (r : Rendering σ) (d : Directive σ) :
    Rendering σ :=
  if !mentions r.text d.name || d.isResolvedIn r.context then r
  else (worklist order d).foldl (fun r d => resolve d limit r) r

/-- Renders a template from a seeded context with directives in order, each evaluated at most so
many times in a row. -/
def renderIn (order : List (Directive σ)) (limit : Nat) (template : String) (seed : Context)
    (state : σ) : Rendering σ :=
  if !hasTokens template then ⟨template, seed, state, []⟩
  else order.foldl (visit order limit) ⟨applySeed order seed template, seed, state, []⟩

/-- Renders a template with a host's directives and the built-in ones. -/
def render (custom builtin : List (Directive σ)) (limit : Nat) (template : String) (seed : Context)
    (state : σ) : Rendering σ :=
  renderIn (evaluationOrder custom builtin) limit template seed state

end Stencil.Engine

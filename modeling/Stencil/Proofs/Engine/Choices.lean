import Stencil.Proofs.Flow
import Stencil.Proofs.Engine.BraceClean
import Stencil.Proofs.Engine.Fields
import Stencil.Proofs.Engine.InOrder
import Stencil.Proofs.Engine.InStep

/-!
# Choices

The tokens in the body of a choice are those of directives that come before it, so they are gone when
it is evaluated: its body is then what the body renders to on its own.  That is cut at its first colon,
and this may be one that came with a value.

Main statement: `render_choice`.
-/

namespace Stencil.Engine

open Stencil.Text Template Directives Catalog

variable {α σ : Type}

/-! ## §1 The directives before the choices -/

/-- Whether a name is that of a directive that comes before the choices: one on variables, or one that
looks something up. -/
def isEarly (name : String) : Bool := (highNames ++ informationalNames).contains name

/-- The directives that come before the choices. -/
def early (host : Host) : List Builtin := high host ++ informational host

theorem builtin_eq_early (host : Host) : builtin host = early host ++ low host := builtin_eq host

/-- These are the directives of early names. -/
theorem isEarly_iff (host : Host) {name : String} :
    isEarly name = true ↔ ∃ d ∈ early host, d.name = name := by
  rw [isEarly, List.contains_iff_mem, ← names_high host, ← names_informational host,
    ← List.map_append]
  exact List.mem_map

theorem isEarly_of_mem_low {host : Host} {d : Builtin} (hd : d ∈ low host) :
    isEarly d.name = false := by
  have hname : d.name ∈ lowNames := by
    rw [← names_low host]
    exact List.mem_map_of_mem hd
  rw [isEarly, ← Bool.not_eq_true, List.contains_iff_mem]
  exact fun hearly => (List.nodup_append.1 nodup_builtinNames).2.2 _ hearly _ hname rfl

/-- What is worked off when an early directive is visited is early. -/
theorem worklist_early {host : Host} {d : Builtin} (hd : d ∈ early host) :
    ∀ d' ∈ worklist (builtin host) d, isEarly d'.name = true ∧ Placeless d' := by
  have hbuiltin : d ∈ builtin host := by
    rw [builtin_eq_early]
    exact List.mem_append_left _ hd
  intro d' hd'
  rcases List.mem_append.1 hd' with hd' | hd'
  · obtain ⟨name, hname, hfind⟩ := List.mem_filterMap.1 hd'
    refine ⟨?_, placeless_builtin host d' (mem_of_find? hfind)⟩
    rw [name_of_find? hfind, dependencies_builtin host d hbuiltin name hname]
    decide +kernel
  · rw [List.mem_singleton.1 hd']
    exact ⟨(isEarly_iff host).2 ⟨d, hd, rfl⟩, placeless_builtin host d hbuiltin⟩

theorem flow_mem_low (host : Host) {choice : Flow.Choice} (h : choice ∈ Flow.choices) :
    flow host choice ∈ low host := by
  have hflow : flow host choice ∈ Flow.choices.map (flow host) := List.mem_map_of_mem h
  simp only [low, beforeScripts, List.mem_append]
  exact .inl (.inl (.inl (.inl hflow)))

theorem isValidName_choice {choice : Flow.Choice} (h : choice ∈ Flow.choices) :
    isValidName choice.name = true := by
  have hall : ∀ choice ∈ Flow.choices, isValidName choice.name = true := by decide +kernel
  exact hall choice h

/-! ## §2 A body, and the token around it -/

/-- The layout of a token with a body. -/
def around (a : α) (o : Opening) (cells : List (Cell (Leaf α))) : Layout α :=
  [.token ⟨a, o, .cells cells⟩]

/-- A body, and the token around it. -/
def inAndOut (a : α) (o : Opening) (cells : List (Cell (Leaf α))) : Bool → Layout α
  | false => flat cells
  | true => around a o cells

theorem write_around (a : α) (o : Opening) (cells : List (Cell (Leaf α))) :
    (around a o cells).write = o.write (some (flat cells).write) := by
  rw [write_flat, around, Layout.write, writeCells_token, writeCells_nil, List.append_nil]
  rfl

theorem heads_around (a : α) (o : Opening) (cells : List (Cell (Leaf α))) :
    (around a o cells).heads =
      ⟨a, o, some (writeCells Leaf.write cells)⟩ :: (flat cells).heads := by
  rw [heads_flat]
  exact List.append_nil _

theorem fill_around {a : α} {u : Filling α} (hu : u a = none) (o : Opening)
    (cells : List (Cell (Leaf α))) :
    (around a o cells).fill u = around a o (fillCells (fun t => u t.tag) id cells) := by
  rw [around, Layout.fill, fillCells]
  simp only [hu]
  rfl

/-- Tags that tell a token and those in its body apart tell the latter apart. -/
theorem nodup_tags_of_around {a : α} {o : Opening} {cells : List (Cell (Leaf α))}
    (hnd : (around a o cells).tags.Nodup) : (flat cells).tags.Nodup := by
  rw [Layout.tags, heads_around, List.map_cons] at hnd
  exact (List.nodup_cons.1 hnd).2

/-- A body and the token around it have the tokens in common that are in the body. -/
theorem common_inAndOut {a : α} {o : Opening} {cells : List (Cell (Leaf α))}
    (hnd : (around a o cells).tags.Nodup) {names : String → Bool} (hname : names o.name = false) :
    Common names (inAndOut a o cells) := by
  have hout : (around a o cells).named names = (flat cells).named names := by
    rw [Layout.named, heads_around, List.filter_cons_of_neg (by simp [hname])]
    rfl
  refine ⟨fun i => ?_, fun i => ?_, fun i j => ?_⟩
  · cases i with
    | false => exact nodup_tags_of_around hnd
    | true => exact hnd
  · cases i with
    | false => exact clear_flat names cells
    | true =>
      intro n hn hn'
      rw [List.mem_singleton.1 (show n ∈ [_] from hn)] at hn'
      rw [hname] at hn'
      exact absurd hn' (by simp)
  · cases i <;> cases j <;> first | rfl | exact hout | exact hout.symm

/-! ## §3 A choice whose body is text -/

theorem outcome_flow (host : Host) (choice : Flow.Choice) (token : Token) (ctx : Context)
    (m : Machine) :
    ∃ paths m', selectionOrNone host ctx m = .ok paths m' ∧
      (⟨flow host choice, token, ctx, m⟩ : Evaluation Machine).outcome.text =
        Flow.half (choice.accepts paths) token.bodyText := by
  obtain ⟨paths, m', hpaths⟩ : ∃ paths m', selectionOrNone host ctx m = .ok paths m' := by
    rw [selectionOrNone]
    split
    · exact ⟨_, _, rfl⟩
    · exact ⟨_, _, rfl⟩
  have happly : (flow host choice).apply token ctx m =
      .ok (.ofText (Flow.half (choice.accepts paths) token.bodyText)) m' := by
    change EStateM.bind (selectionOrNone host ctx) _ m = _
    rw [EStateM.bind, hpaths]
    rfl
  exact ⟨paths, m', hpaths, by rw [outcome_of_apply happly]; rfl⟩

/-- A text that is one token, with text for a body. -/
def loneToken (o : Opening) (body : PlainText) : Layout Unit :=
  [.token ⟨(), o, .plain (.ofText body)⟩]

/-- The head of that token. -/
def loneHead (o : Opening) (body : PlainText) : Head Unit := ⟨(), o, some body.1⟩

theorem write_loneToken (o : Opening) (body : PlainText) :
    (loneToken o body).write = o.write (some body.1) := List.append_nil _

theorem marks_loneToken (o : Opening) (body : PlainText) :
    (loneToken o body).marks 0 = [(loneHead o body, 0)] := rfl

theorem fill_loneToken {u : Filling Unit} {text : PlainText} (hu : u () = some text) (o : Opening)
    (body : PlainText) : (loneToken o body).fill u = Cell.ofText text := by
  simp [loneToken, Layout.fill, fillCells, hu]

theorem firstNamed_loneToken (o : Opening) (body : PlainText) :
    (loneToken o body).firstNamed o.name = some (loneHead o body) := by
  have hnode : Node.firstNamed o.name ⟨(), o, .plain (.ofText body)⟩ = some (loneHead o body) := by
    simp [Node.firstNamed, Node.leaves, loneHead, Node.head, Interior.chars?, PlainBody.ofText]
  have hnodes : (loneToken o body).nodes = [⟨(), o, .plain (.ofText body)⟩] := rfl
  rw [Layout.firstNamed, hnodes, List.findSome?_cons, hnode]

/-- Working off the directive of the only token leaves nothing but the result. -/
theorem text_resolve_lone {d : Directive σ} {o : Opening} (hname : o.name = d.name)
    {body : PlainText} {r : Rendering σ} (htext : r.text.toList = o.write (some body.1))
    {result : PlainText}
    (hresult : (⟨d, (loneHead o body).token 0, r.context, r.state⟩ : Evaluation σ).outcome.text =
      .ofList result.1) {limit : Nat} (hlimit : 0 < limit) :
    (resolve d limit r).text = .ofList result.1 := by
  have hl : r.text.toList = (loneToken o body).write := by rw [htext, write_loneToken]
  have hnd : (loneToken o body).tags.Nodup := List.nodup_singleton ()
  have hmark : (loneHead o body, 0) ∈ (loneToken o body).marks 0 := List.mem_cons_self
  have hfilled := (resultFilling_spec hnd (mem_heads_of_mem_marks hmark) hname result).1
  -- The result takes the place of the token, and holds none.
  have hstep : (r.step d ((loneHead o body).token 0)).text = .ofList result.1 := by
    rw [← String.toList_inj, toList_step hl hnd hmark hresult, fill_loneToken hfilled, Layout.write,
      writeCells_ofText, String.toList_ofList]
  obtain ⟨limit, rfl⟩ : ∃ n, limit = n + 1 := ⟨limit - 1, by omega⟩
  have hfirst := firstNamed_write d.name hl
  rw [← hname, firstNamed_loneToken, hname] at hfirst
  obtain ⟨pos, nested, hmem, hfirst⟩ := hfirst
  rw [marks_loneToken, List.mem_singleton, Prod.mk.injEq] at hmem
  rw [hmem.2] at hfirst
  simp only [resolve, hfirst]
  rw [resolve_of_not_mentioned, hstep]
  rw [hstep, tokens_of_braceFree (by simpa using result.2)]
  simp

/-- The later directives leave nothing of a choice whose body is text but the half that counts. -/
theorem visits_choice (host : Host) {choice : Flow.Choice} (hchoice : choice ∈ Flow.choices)
    {limit : Nat} (hlimit : 0 < limit) {o : Opening} (hname : o.name = choice.name) (body : PlainText)
    {r : Rendering Machine} (htext : r.text.toList = o.write (some body.1)) :
    ∃ paths m', selectionOrNone host r.context r.state = .ok paths m' ∧
      ((low host).foldl (visit (builtin host) limit) r).text =
        Flow.half (choice.accepts paths) (.ofList body.1) := by
  obtain ⟨paths, m', hpaths, houtcome⟩ :=
    outcome_flow host choice ((loneHead o body).token 0) r.context r.state
  have hplain : BraceFree (Flow.half (choice.accepts paths) (.ofList body.1)).toList :=
    Flow.braceFree_half (by simpa using body.2) _
  have hvisit : (visit (builtin host) limit r (flow host choice)).text =
      Flow.half (choice.accepts paths) (.ofList body.1) := by
    have hresult : (⟨flow host choice, (loneHead o body).token 0, r.context, r.state⟩ :
        Evaluation Machine).outcome.text = .ofList (⟨_, hplain⟩ : PlainText).1 := by
      rw [houtcome, String.ofList_toList]
      rfl
    rw [visit_eq_resolve rfl rfl, text_resolve_lone hname htext hresult hlimit, String.ofList_toList]
  have hnd : ((low host).map (·.name)).Nodup := by
    rw [names_low]
    exact (List.nodup_append.1 nodup_builtinNames).2.1
  refine ⟨paths, m', hpaths, ?_⟩
  -- No other directive has a token before or after: first there is just the choice, then none.
  rw [visits_of_only hnd (flow_mem_low host hchoice), hvisit]
  · intro t ht
    rw [tokens_of_layout (htext.trans (write_loneToken o body).symm), marks_loneToken] at ht
    rw [List.mem_singleton.1 ht]
    exact hname
  · exact tokens_of_braceFree (by rwa [hvisit])

/-! ## §4 A choice whose body holds tokens -/

theorem mem_heads_fill_flat {cells : List (Cell (Leaf α))} {u : Filling α} {h : Head α}
    (hh : h ∈ (flat cells).heads) (hu : u h.tag = none) : h ∈ ((flat cells).fill u).heads := by
  rw [heads_flat] at hh
  obtain ⟨t, ht, rfl⟩ := List.mem_map.1 hh
  rw [fill_flat, heads_flat, filterMap_token?_fillCells, List.map_id]
  refine List.mem_map_of_mem (List.mem_filter.2 ⟨ht, ?_⟩)
  rw [Leaf.head_tag] at hu
  rw [hu, Option.isNone_none]

theorem braceFree_write {l : Layout α} (h : l.heads = []) : BraceFree l.write := by
  induction l with
  | nil => exact braceFree_nil
  | cons cell l ih =>
    cases cell with
    | char c plain =>
      rw [Layout.write, writeCells_char]
      exact List.forall_mem_cons.2 ⟨plain, ih h⟩
    | token n => exact absurd h (List.cons_ne_nil _ _)

section Rendering

variable [DecidableEq α] {host : Host} {limit : Nat} {cells : List (Cell (Leaf α))} {seed : Context}
  {m : Machine} (hearly : ∀ h ∈ (flat cells).heads, isEarly h.opening.name = true)
  (hlimit : (flat cells).heads.length ≤ limit)
  (hseed : ∀ key s, Context.text? seed key = some s → BraceFree s.toList)
include hearly hlimit hseed

/-- Rendering a text with tokens of early directives replaces all of them. -/
theorem exists_tracks_early (hnd : (flat cells).tags.Nodup) {body : String}
    (hbody : body.toList = (flat cells).write)
    (hfree : ∀ e ∈ (render [] (builtin host) limit body seed m).evaluations,
      BraceFree e.outcome.text.toList) :
    ∃ u origin, Tracks (builtin host) seed (flat cells)
        (render [] (builtin host) limit body seed m) u ∧
      Attributed (builtin host) seed (render [] (builtin host) limit body seed m).evaluations
        (flat cells) u origin ∧
      ∀ h ∈ (flat cells).heads, u h.tag ≠ none := by
  rw [render_nil] at hfree ⊢
  have hseeds : ∀ h ∈ (flat cells).heads, ∀ s,
      seedText? (builtin host) seed h.opening.name = some s → BraceFree s.toList :=
    fun _ _ _ => braceFree_of_seedText? hseed
  obtain ⟨u, origin, htracks, hattributed⟩ := exists_attributed hnd hbody hseeds hfree
  obtain ⟨v, hworked, hgone⟩ := exists_tracks_renderIn hnd hbody hlimit hseeds
    (noEarlyFields_builtin host limit rfl) hfree
  refine ⟨u, origin, htracks, hattributed, fun h hh hu => ?_⟩
  obtain ⟨d, hd, hname⟩ := (isEarly_iff host).1 (hearly h hh)
  have hbuiltin : d ∈ builtin host := by
    rw [builtin_eq_early]
    exact List.mem_append_left _ hd
  exact htracks.gone_iff.2 (hworked.gone_iff.1 (hgone d hbuiltin)) h (mem_heads_fill_flat hh hu)
    hname.symm

omit hlimit in
/-- A body and the token around it are rendered in step until the choices are visited, and that is all
for the body. -/
theorem inStep_early {a : α} {o : Opening} {choice : Flow.Choice} (hchoice : choice ∈ Flow.choices)
    (hname : o.name = choice.name) (hl : Common isEarly (inAndOut a o cells)) (texts : Bool → String)
    (htexts : ∀ i, (texts i).toList = (inAndOut a o cells i).write)
    (hfree : ∀ e ∈ (render [] (builtin host) limit (texts false) seed m).evaluations,
      BraceFree e.outcome.text.toList) :
    ∃ v, InStep isEarly (inAndOut a o cells) v (fun i =>
        (early host).foldl (visit (builtin host) limit) (startIn (builtin host) (texts i) seed m)) ∧
      render [] (builtin host) limit (texts false) seed m =
        (early host).foldl (visit (builtin host) limit)
          (startIn (builtin host) (texts false) seed m) := by
  have hpass : render [] (builtin host) limit (texts false) seed m =
      (low host).foldl (visit (builtin host) limit) ((early host).foldl
        (visit (builtin host) limit) (startIn (builtin host) (texts false) seed m)) := by
    rw [render, evaluationOrder_nil, renderIn_eq, ← List.foldl_append, ← builtin_eq_early]
  have hnone : seedText? (builtin host) seed o.name = none := by
    rw [hname]
    refine seedText?_of_resultKeys (d := flow host choice) ?_ rfl seed
    rw [builtin_eq_early]
    exact List.mem_append_right _ (flow_mem_low host hchoice)
  -- Every head is early, but that of the token around the body.
  have hheads : ∀ i, ∀ h ∈ (inAndOut a o cells i).heads,
      isEarly h.opening.name = true ∨ h.opening.name = o.name := by
    intro i h hh
    cases i with
    | false => exact .inl (hearly h hh)
    | true =>
      rw [inAndOut, heads_around] at hh
      rcases List.mem_cons.1 hh with rfl | hh
      · exact .inr rfl
      · exact .inl (hearly h hh)
  have hothers : ∀ i, ∀ h ∈ (inAndOut a o cells i).heads, isEarly h.opening.name = false →
      seedText? (builtin host) seed h.opening.name = none := by
    intro i h hh hlate
    rcases hheads i h hh with hearly' | hname'
    · rw [hearly'] at hlate
      exact absurd hlate (by simp)
    · rw [hname', hnone]
  have hstart := inStep_start hl htexts hothers (fun _ _ _ _ => braceFree_of_seedText? hseed) false m
  -- The body alone is rendered by the early directives: it has no tokens of the others.
  rw [hpass] at hfree
  obtain ⟨v, hv⟩ := hstart.visits hl (fun d hd => worklist_early hd) false limit
    fun e he => hfree e (evaluations_subset_visits (builtin host) limit (low host) _ he)
  refine ⟨_, hv, ?_⟩
  rw [hpass]
  refine visits_of_not_mentioned fun d hd t ht hlow => ?_
  rw [tokens_of_layout (hv.text false)] at ht
  obtain ⟨mark, hmark, rfl⟩ := List.mem_map.1 ht
  obtain ⟨-, h₀, hh₀, -, hopening⟩ := mem_heads_fill (mem_heads_of_mem_marks hmark)
  have hlate := isEarly_of_mem_low hd
  rw [← hlow, Head.token_name, ← hopening, hearly h₀ hh₀] at hlate
  exact absurd hlate (by simp)

/-- A choice gives the half that counts of what its body renders to. -/
theorem render_around {a : α} {o : Opening} {choice : Flow.Choice} (hchoice : choice ∈ Flow.choices)
    (hname : o.name = choice.name) (hnd : (around a o cells).tags.Nodup) (hpos : 0 < limit)
    {body template : String} (hbody : body.toList = (flat cells).write)
    (htemplate : template.toList = (around a o cells).write)
    (hfree : ∀ e ∈ (render [] (builtin host) limit body seed m).evaluations,
      BraceFree e.outcome.text.toList) :
    ∃ paths m', selectionOrNone host (render [] (builtin host) limit body seed m).context
        (render [] (builtin host) limit body seed m).state = .ok paths m' ∧
      (render [] (builtin host) limit template seed m).text =
        Flow.half (choice.accepts paths) (render [] (builtin host) limit body seed m).text := by
  have hlate : isEarly o.name = false := by
    rw [hname]
    exact isEarly_of_mem_low (flow_mem_low host hchoice)
  have hl : Common isEarly (inAndOut a o cells) := common_inAndOut hnd hlate
  obtain ⟨u, -, htracks, -, hall⟩ :=
    exists_tracks_early hearly hlimit hseed (nodup_tags_of_around hnd) hbody hfree
  have hplain : BraceFree (render [] (builtin host) limit body seed m).text.toList := by
    rw [htracks.text]
    exact braceFree_write (heads_fill_eq_nil hall)
  have htexts : ∀ i, (if i then template else body).toList = (inAndOut a o cells i).write := by
    intro i
    cases i with
    | false => exact hbody
    | true => exact htemplate
  obtain ⟨v, hstep, hside⟩ := inStep_early hearly hseed hchoice hname hl _ htexts hfree
  simp only [Bool.false_eq_true, ↓reduceIte] at hside
  -- The token around the body is not filled, so what stands in it is what the body renders to.
  have hout : v a = none := by
    by_contra hne
    have hearly' := hstep.only true ⟨a, o, some (writeCells Leaf.write cells)⟩ (by
      rw [inAndOut, heads_around]
      exact List.mem_cons_self) hne
    rw [hlate] at hearly'
    exact absurd hearly' (by simp)
  have hbodyText : (render [] (builtin host) limit body seed m).text.toList =
      ((flat cells).fill v).write := by
    rw [hside]
    exact hstep.text false
  have htext := hstep.text true
  simp only [↓reduceIte] at htext
  rw [inAndOut, fill_around hout, write_around, ← fill_flat, ← hbodyText] at htext
  obtain ⟨paths, m', hpaths, hhalf⟩ := visits_choice host hchoice hpos hname
    ⟨(render [] (builtin host) limit body seed m).text.toList, hplain⟩ htext
  refine ⟨paths, m', ?_, ?_⟩
  · have hcontext := hstep.context true false
    have hstate := hstep.state true false
    simp only [Bool.false_eq_true, ↓reduceIte] at hcontext hstate
    rw [hcontext, hstate] at hpaths
    rw [hside]
    exact hpaths
  · rw [String.ofList_toList] at hhalf
    rw [← hhalf, render, evaluationOrder_nil, renderIn_eq, ← List.foldl_append, ← builtin_eq_early]

end Rendering

/-! ## §5 Two branches -/

/-- Whether a text can be a branch: its tokens are those of directives that come before the choices and
hold no tokens, and there are no other braces. -/
structure IsBranch (branch : String) : Prop where
  /-- No token holds tokens. -/
  unnested : Unnested branch
  /-- Braces stand in tokens. -/
  braces : OnlyInTokens isBrace branch
  /-- The tokens are those of early directives. -/
  early : ∀ t ∈ tokens branch, isEarly t.name = true

/-- The tokens of a text that stand in a part of it. -/
def tokensWithin (source : String) (start stop : Nat) : List Token :=
  (tokens source).filter fun t => start ≤ t.span.start ∧ t.span.stop ≤ stop

/-- Whether a text is what a part of a template is rendered to that starts at a byte position: the part
with texts in the places of its tokens that are accounted for, and no braces. -/
def Filled {order : List (Directive σ)} {seed : Context} {template : String}
    {es : List (Evaluation σ)} (account : Account order seed template es) (start : Nat)
    (part out : String) : Prop :=
  BraceFree out.toList ∧
    Patched start part.toList
      ((tokensWithin template start (start + byteLength part.toList)).map
        fun t => ⟨t.span, account.value t⟩) out.toList

/-- A branch as places, with tags that tell where its tokens stand in a text that holds it from a byte
position on. -/
theorem IsBranch.exists_cells {branch : String} (h : IsBranch branch) (start : Nat) :
    ∃ cells : List (Cell (Leaf (Option Span))), branch.toList = (flat cells).write ∧
      (∀ mark ∈ (flat cells).marks start, mark.1.tag = some (mark.1.token mark.2).span) ∧
      ∀ head ∈ (flat cells).heads, isEarly head.opening.name = true := by
  obtain ⟨cells, hwrite, hmarks⟩ :=
    exists_flat (fun t => some (⟨t.span.start + start, t.span.stop + start⟩ : Span)) h.unnested
      h.braces
  refine ⟨cells, hwrite, fun mark hmark => ?_, fun head hhead => ?_⟩
  · -- Where it stands from the position on, it stands by as much before in the branch itself.
    rw [marks_flat, ← Nat.zero_add start, place_add, List.map_map] at hmark
    obtain ⟨m, hm, rfl⟩ := List.mem_map.1 hmark
    have hmark₀ : (m.1.head, m.2) ∈ (flat cells).marks 0 := by
      rw [marks_flat]
      exact List.mem_map_of_mem (f := fun m : Leaf (Option Span) × Nat => (m.1.head, m.2)) hm
    refine (hmarks _ hmark₀).trans (congrArg some ?_)
    simp only [Function.comp_apply, Head.token, Span.mk.injEq, true_and]
    omega
  · obtain ⟨pos, -, htoken⟩ := exists_token_of_mem_heads hwrite hhead
    exact h.early _ htoken

/-- Two branches with a colon between them. -/
def branchCells (yes no : List (Cell (Leaf α))) : List (Cell (Leaf α)) :=
  yes ++ .char ':' (by decide) :: no

theorem write_branchCells (yes no : List (Cell (Leaf α))) :
    (flat (branchCells yes no)).write = (flat yes).write ++ ':' :: (flat no).write := by
  rw [write_flat, branchCells, writeCells_append, writeCells_char, write_flat, write_flat]

theorem heads_branchCells (yes no : List (Cell (Leaf α))) :
    (flat (branchCells yes no)).heads = (flat yes).heads ++ (flat no).heads := by
  rw [heads_flat, heads_flat, heads_flat, branchCells, List.filterMap_append, List.map_append]
  rfl

theorem write_fill_branchCells (u : Filling α) (yes no : List (Cell (Leaf α))) :
    ((flat (branchCells yes no)).fill u).write =
      ((flat yes).fill u).write ++ ':' :: ((flat no).fill u).write := by
  rw [fill_flat, fill_flat, fill_flat, ← write_branchCells, branchCells, branchCells,
    fillCells_append]
  rfl

theorem marks_branchCells (yes no : List (Cell (Leaf α))) :
    (flat (branchCells yes no)).marks 0 =
      (flat yes).marks 0 ++ (flat no).marks (byteLength (flat yes).write + 1) := by
  rw [marks_flat, branchCells, place_append, List.map_append, place, marks_flat, marks_flat, write_flat,
    Nat.zero_add]
  rfl

/-- The place around a text and those of the tokens in it are told apart. -/
theorem nodup_tags_around (o : Opening) {cells : List (Cell (Leaf (Option Span)))}
    (htags : ∀ mark ∈ (flat cells).marks 0, mark.1.tag = some (mark.1.token mark.2).span) :
    (around none o cells).tags.Nodup := by
  rw [Layout.tags, heads_around, List.map_cons, List.nodup_cons]
  refine ⟨fun hmem => ?_, nodup_tags_of_injective (fun _ _ => Option.some.inj) htags⟩
  obtain ⟨h, hh, htag⟩ := List.mem_map.1 hmem
  rw [← map_fst_marks _ 0] at hh
  obtain ⟨mark, hmark, rfl⟩ := List.mem_map.1 hh
  exact absurd ((htags mark hmark).symm.trans htag) (by simp)

theorem bounds_of_mem_marks_flat {cells : List (Cell (Leaf α))} {start : Nat} {mark : Head α × Nat}
    (hmark : mark ∈ (flat cells).marks start) :
    start ≤ (mark.1.token mark.2).span.start ∧
      (mark.1.token mark.2).span.start < (mark.1.token mark.2).span.stop ∧
      (mark.1.token mark.2).span.stop ≤ start + byteLength (flat cells).write := by
  rw [marks_flat] at hmark
  obtain ⟨m, hm, rfl⟩ := List.mem_map.1 hmark
  have hbounds := bounds_of_mem_place hm
  rw [write_flat]
  exact ⟨hbounds.1, Nat.lt_add_of_pos_right (byteLength_pos m.1.head.chars_ne_nil), hbounds.2⟩

/-- The tokens in each of two branches are those of its own places. -/
theorem tokensWithin_branches {source : String} {yes no : List (Cell (Leaf α))}
    (h : source.toList = (flat (branchCells yes no)).write) :
    tokensWithin source 0 (byteLength (flat yes).write) =
        ((flat yes).marks 0).map (fun m => m.1.token m.2) ∧
      tokensWithin source (byteLength (flat yes).write + 1)
          (byteLength (flat yes).write + 1 + byteLength (flat no).write) =
        ((flat no).marks (byteLength (flat yes).write + 1)).map fun m => m.1.token m.2 := by
  have htokens : tokens source = ((flat yes).marks 0).map (fun m => m.1.token m.2) ++
      ((flat no).marks (byteLength (flat yes).write + 1)).map fun m => m.1.token m.2 := by
    rw [tokens_of_layout h, marks_branchCells, List.map_append]
  have hyes : ∀ t ∈ ((flat yes).marks 0).map (fun m => m.1.token m.2),
      t.span.start < t.span.stop ∧ t.span.stop ≤ byteLength (flat yes).write := by
    refine List.forall_mem_map.2 fun m hm => ?_
    have := bounds_of_mem_marks_flat hm
    omega
  have hno : ∀ t ∈ ((flat no).marks (byteLength (flat yes).write + 1)).map (fun m => m.1.token m.2),
      byteLength (flat yes).write + 1 ≤ t.span.start ∧ t.span.start < t.span.stop ∧
        t.span.stop ≤ byteLength (flat yes).write + 1 + byteLength (flat no).write :=
    List.forall_mem_map.2 fun m hm => bounds_of_mem_marks_flat hm
  rw [tokensWithin, tokensWithin, htokens, List.filter_append, List.filter_append]
  constructor
  · rw [List.filter_eq_self.2, List.filter_eq_nil_iff.2, List.append_nil]
    · intro t ht
      have := hno t ht
      simp only [decide_eq_true_eq]
      omega
    · intro t ht
      have := hyes t ht
      simp only [decide_eq_true_eq]
      omega
  · rw [List.filter_eq_nil_iff.2, List.filter_eq_self.2, List.nil_append]
    · intro t ht
      have := hno t ht
      simp only [decide_eq_true_eq]
      omega
    · intro t ht
      have := hyes t ht
      simp only [decide_eq_true_eq]
      omega

/-- What a full filling makes of a branch is what that is rendered to. -/
theorem filled_of_fill {order : List (Directive σ)} {seed : Context} {template : String}
    {es : List (Evaluation σ)} {account : Account order seed template es}
    {u : Filling (Option Span)} (hvalue : ∀ t, account.value t = u.textAt (some t.span))
    {part out : String} {cells : List (Cell (Leaf (Option Span)))} {start : Nat}
    (hpart : part.toList = (flat cells).write)
    (htags : ∀ mark ∈ (flat cells).marks start, mark.1.tag = some (mark.1.token mark.2).span)
    (hall : ∀ h ∈ (flat cells).heads, u h.tag ≠ none)
    (hwithin : tokensWithin template start (start + byteLength (flat cells).write) =
      ((flat cells).marks start).map fun m => m.1.token m.2)
    (hout : out.toList = ((flat cells).fill u).write) : Filled account start part out := by
  rw [Filled, hpart, hwithin, hout]
  refine ⟨braceFree_write (heads_fill_eq_nil hall), ?_⟩
  have hpatched := patched_fill u (flat cells) start
  rw [edits_flat_marks (f := fun t => some t.span) htags hall] at hpatched
  simpa only [hvalue] using hpatched

/-- The token with two branches. -/
def choiceToken (choice : Flow.Choice) (yes no : String) : String :=
  Token.write choice.name .none (some (yes ++ ":" ++ no))

/-- A choice gives the half that counts of what its two branches render to beside each other, where every
token has given way to a text that is accounted for.  So it gives what the branch that counts renders to
exactly if there is no colon in what the first one renders to: that is cut at its first colon, wherever
that comes from. -/
theorem render_choice (host : Host) (limit : Nat) {choice : Flow.Choice}
    (hchoice : choice ∈ Flow.choices) {yes no : String} (hyes : IsBranch yes) (hno : IsBranch no)
    (seed : Context) (m : Machine) (hpos : 0 < limit)
    (hlimit : (tokens yes).length + (tokens no).length ≤ limit)
    (hseed : ∀ key s, Context.text? seed key = some s → BraceFree s.toList)
    (hfree : ∀ e ∈ (render [] (builtin host) limit (yes ++ ":" ++ no) seed m).evaluations,
      BraceFree e.outcome.text.toList) :
    let branches := render [] (builtin host) limit (yes ++ ":" ++ no) seed m
    let r := render [] (builtin host) limit (choiceToken choice yes no) seed m
    ∃ (account : Account (builtin host) seed (yes ++ ":" ++ no) branches.evaluations) (a b : String)
        (paths : List String) (m' : Machine),
      (∀ t ∈ tokens (yes ++ ":" ++ no), (account.origin t).isSome = true) ∧
      branches.text = a ++ ":" ++ b ∧ Filled account 0 yes a ∧
      Filled account (byteLength (yes ++ ":").toList) no b ∧
      selectionOrNone host branches.context branches.state = .ok paths m' ∧
      r.text = Flow.half (choice.accepts paths) (a ++ ":" ++ b) ∧
      (r.text = (if choice.accepts paths then a else b) ↔ ':' ∉ a.toList) := by
  intro branches r
  obtain ⟨cells, hwrite, htags, hheads⟩ := hyes.exists_cells 0
  obtain ⟨cells', hwrite', htags', hheads'⟩ := hno.exists_cells (byteLength (flat cells).write + 1)
  obtain ⟨o, hname, -, hchars⟩ := exists_opening_of_isValidName (isValidName_choice hchoice)
  have hbody : (yes ++ ":" ++ no).toList = (flat (branchCells cells cells')).write := by
    rw [write_branchCells, ← hwrite, ← hwrite']
    simp
  have htemplate : (choiceToken choice yes no).toList =
      (around none o (branchCells cells cells')).write := by
    rw [write_around, ← hbody, Opening.write, hchars]
    simp [choiceToken, Token.write, Arguments.none, Dict.empty]
  have hspans : ∀ mark ∈ (flat (branchCells cells cells')).marks 0,
      mark.1.tag = some (mark.1.token mark.2).span := by
    rw [marks_branchCells]
    exact List.forall_mem_append.2 ⟨htags, htags'⟩
  have hnd := nodup_tags_around o hspans
  have hearly : ∀ h ∈ (flat (branchCells cells cells')).heads, isEarly h.opening.name = true := by
    rw [heads_branchCells]
    exact List.forall_mem_append.2 ⟨hheads, hheads'⟩
  have hlimit' : (flat (branchCells cells cells')).heads.length ≤ limit := by
    rwa [heads_branchCells, List.length_append, ← length_tokens_of_layout hwrite,
      ← length_tokens_of_layout hwrite']
  obtain ⟨u, origin, htracks, hattributed, hall⟩ :=
    exists_tracks_early hearly hlimit' hseed (nodup_tags_of_around hnd) hbody hfree
  obtain ⟨paths, m', hpaths, hhalf⟩ :=
    render_around hearly hlimit' hseed hchoice hname hnd hpos hbody htemplate hfree
  -- What the branches render to beside each other is what each of them is filled to.
  let a : String := .ofList ((flat cells).fill u).write
  let b : String := .ofList ((flat cells').fill u).write
  have htext : branches.text = a ++ ":" ++ b := by
    rw [← String.toList_inj, htracks.text, write_fill_branchCells]
    simp [a, b]
  have hfull := hall
  rw [heads_branchCells] at hfull
  obtain ⟨hfull, hfull'⟩ := List.forall_mem_append.1 hfull
  let account := hattributed.account hbody hspans fun _ _ => Option.some.inj
  obtain ⟨hwithin, hwithin'⟩ := tokensWithin_branches hbody
  have hstart : byteLength (yes ++ ":").toList = byteLength (flat cells).write + 1 := by
    rw [String.toList_append, byteLength_append, hwrite]
    rfl
  have ha : Filled account 0 yes a :=
    filled_of_fill (fun _ => rfl) hwrite htags hfull (by rw [Nat.zero_add, hwithin]) (by simp [a])
  have hb : Filled account (byteLength (yes ++ ":").toList) no b :=
    hstart ▸ filled_of_fill (fun _ => rfl) hwrite' htags' hfull' hwithin' (by simp [b])
  have horigin : ∀ t ∈ tokens (yes ++ ":" ++ no), (account.origin t).isSome = true := by
    intro t ht
    obtain ⟨mark, hmark, hhead, rfl⟩ := exists_mark_of_mem_tokens hbody ht
    have hsome := hattributed.filled mark.1 hhead
    rw [hspans mark hmark] at hsome
    refine hsome.trans (Option.isSome_iff_ne_none.2 ?_)
    rw [← hspans mark hmark]
    exact hall mark.1 hhead
  have hhalf' : r.text = Flow.half (choice.accepts paths) (a ++ ":" ++ b) := htext ▸ hhalf
  refine ⟨account, a, b, paths, m', horigin, htext, ha, hb, hpaths, hhalf', ?_⟩
  rw [hhalf']
  exact Flow.half_eq_iff ha.1 b _

/-- A selected picture, and a word on the clipboard. -/
theorem render_choice_word :
    let host := stillHost { (default : FixedDesktop) with selectedFiles := ["a.png"] }
    let m := { stillMachine Dict.empty with clipboard := some "noon" }
    let yes := "{{clipboardText}}"
    let branches := render [] (builtin host) 1 (yes ++ ":" ++ "none") Dict.empty m
    let r := render [] (builtin host) 1 (choiceToken Flow.categories[0] yes "none") Dict.empty m
    r.text = "noon" ∧
      ∃ account : Account (builtin host) Dict.empty (yes ++ ":" ++ "none") branches.evaluations,
        ∃ a b, Filled account 0 yes a ∧ Filled account (byteLength (yes ++ ":").toList) "none" b ∧
          ∃ paths, r.text = (if Flow.categories[0].accepts paths then a else b) ↔ ':' ∉ a.toList := by
  intro host m yes branches r
  have himages : Flow.categories[0] ∈ Flow.choices := by decide +kernel
  have hyes : IsBranch yes := ⟨by decide +kernel, by decide +kernel, by decide +kernel⟩
  have hno : IsBranch "none" := ⟨by decide +kernel, by decide +kernel, by decide +kernel⟩
  have hseed : ∀ key s, Context.text? Dict.empty key = some s → BraceFree s.toList :=
    fun key s hs => absurd hs (by simp [Context.text?, Dict.get?, Dict.empty])
  obtain ⟨account, a, b, paths, -, -, -, ha, hb, -, -, hiff⟩ := render_choice host 1 himages hyes hno
    Dict.empty m (by decide) (by decide +kernel) hseed (by decide +kernel)
  -- Without its value, the result is not run again when the parts are put together.
  have hr : r = render [] (builtin host) 1 (choiceToken Flow.categories[0] yes "none") Dict.empty m :=
    rfl
  clear_value r
  subst hr
  exact ⟨by decide +kernel, account, a, b, ha, hb, paths, hiff⟩

/-- A selected picture, and a time on the clipboard. -/
theorem render_choice_clock :
    let host := stillHost { (default : FixedDesktop) with selectedFiles := ["a.png"] }
    let m := { stillMachine Dict.empty with clipboard := some "12:30" }
    let yes := "{{clipboardText}}"
    Flow.categories[0] ∈ Flow.choices ∧ IsBranch yes ∧ IsBranch "none" ∧
      Flow.categories[0].accepts ["a.png"] = true ∧
      (render [] (builtin host) 1 yes Dict.empty m).text = "12:30" ∧
      (render [] (builtin host) 1 (choiceToken Flow.categories[0] yes "none") Dict.empty m).text =
        "12" := by
  intro host m yes
  refine ⟨by decide +kernel, ⟨by decide +kernel, by decide +kernel, by decide +kernel⟩,
    ⟨by decide +kernel, by decide +kernel, by decide +kernel⟩, by decide +kernel, ?_, ?_⟩
  · decide +kernel
  · decide +kernel

end Stencil.Engine
